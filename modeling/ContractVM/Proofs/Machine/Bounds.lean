/-
Gas is the only bound that execution needs.

Contracts may call each other and themselves as they like, and nothing but their gas
stops them.  It always does: the nesting that the limit of a transaction can pay for is
never reached, so that allowing more changes nothing (`attempt_settles`), and the frames
and invocations on the trail are as few as the limit pays for (`runTop_trail`).
-/
import ContractVM.Proofs.Exec.Nesting
import ContractVM.Proofs.Machine.Lasting

namespace ContractVM

/-- What a transaction with the gas `limit` does at most, if calls may nest to
`maxDepth`. -/
structure Trail.Bounded (limit : Int) (maxDepth : Number) (steps : Trail) : Prop where
  frames : (steps.depths.length : Int) ≤ 1 + limit / 700
  invocations : (steps.invocations : Int) ≤ limit / 8
  /-- Only the first frame may be deeper than the limit on depth, which may be negative. -/
  depth : ∀ d ∈ steps.depths, d = 0 ∨ maxDepth.lt (.ofNat d) = false

theorem Trail.Bounded.of_toll {limit : Int} {maxDepth : Number} {steps : Trail}
    (paid : steps.toll ≤ limit) (shallow : ∀ d ∈ steps.depths, maxDepth.lt (.ofNat d) = false)
    (parent : Option Nat) (self code : Address) (budget : Int) :
    Bounded limit maxDepth (steps ++ [.opened 0 parent 0 self code budget]) where
  frames := by
    unfold toll Fee.call Fee.jump at paid
    rw [depths_append, List.length_append]
    show ((steps.depths.length + 1 : Nat) : Int) ≤ _
    omega
  invocations := by
    unfold toll Fee.call Fee.jump at paid
    rw [invocations_append]
    show ((steps.invocations + 0 : Nat) : Int) ≤ _
    omega
  depth := by
    intro d hd
    rw [depths_append, List.mem_append] at hd
    rcases hd with hd | hd
    · exact .inr (shallow d hd)
    · exact .inl (List.mem_singleton.1 hd)

theorem Trail.Bounded.then_free {limit : Int} {maxDepth : Number} {steps post : Trail}
    (h : steps.Bounded limit maxDepth) (free : ∀ step ∈ post, step.TollFree) :
    (post ++ steps).Bounded limit maxDepth where
  frames := by
    rw [depths_append, depths_tollFree free]
    exact h.frames
  invocations := by
    rw [invocations_append, invocations_tollFree free, Nat.zero_add]
    exact h.invocations
  depth := by
    rw [depths_append, depths_tollFree free]
    exact h.depth

namespace Machine

variable {m : Machine} {r : Request}

/-- The gas of the first frame pays for less nesting than it may use. -/
theorem topSite_below {limit : Int} (budget : 0 ≤ limit) (m : Machine) (r : Request) :
    (m.topSite (m.topFrame r ⟨limit, limit⟩)).Below (Fee.jump * nesting limit) where
  solvent := ⟨budget, Int.le_refl _⟩
  less := by
    have hpos : limit.toNat / 8 * 8 + 8 > limit.toNat := by omega
    show limit < 8 * ((limit.toNat / 8 + 1 : Nat) : Int)
    omega

theorem attempt_settles {limit : Int} (budget : 0 ≤ limit) (m : Machine) (r : Request) {depth : Nat}
    (hdepth : nesting limit ≤ depth) :
    Concur (m.topSite (m.topFrame r ⟨limit, limit⟩))
      (Exec.attempt (runBody (nesting limit)) m.environment r)
      (Exec.attempt (runBody depth) m.environment r) :=
  Exec.attempt_concur (runBody_follows _) (runBody_concur hdepth) r (topSite_below budget m r)

/-! ## The trail of a transaction -/

/-- A machine whose trail is that of `t`, and steps that are free of toll. -/
def Trails (t : Site) (m : Machine) : Prop :=
  ∃ post, (∀ step ∈ post, Step.TollFree step) ∧ m.trail = post ++ t.world.trail

theorem Trails.leave (m : Machine) (t : Site) : Trails t (m.leave t) :=
  ⟨_, fun step hstep => Trail.tollFree_releases t.frame.id t.frame.tokens (t := [])
    (fun _ h => nomatch h) step (by rw [List.append_nil]; exact hstep), rfl⟩

theorem Trails.after_step {t u : Site} {m : Machine} (h : Trails u m) (step : Step)
    (free : step.TollFree) (htrail : u.world.trail = step :: t.world.trail) : Trails t m := by
  obtain ⟨post, hpost, hm⟩ := h
  refine ⟨post ++ [step], fun step' hstep => ?_, ?_⟩
  · rcases List.mem_append.1 hstep with hstep | hstep
    · exact hpost step' hstep
    · exact Trail.tollFree_single free step' hstep
  · rw [hm, htrail, List.append_assoc]
    rfl

theorem trails_settle (m : Machine) (t : Site) (f : Fault) :
    Trails t (m.leave (Exec.endSite (t.settle f))) := by
  have settles := t.settle_cases f
  generalize t.settle f = res at settles ⊢
  cases settles with
  | @reverted c p _ _ ended =>
    obtain ⟨f, g, storage, -, -, -, -, rfl⟩ := Site.revert_eq ended
    exact (Trails.leave m _).after_step
      (.reverted g.id g.depth g.ctx.codeAddress c p g.meter.left) ⟨rfl, rfl⟩ rfl
  | @dropped _ storage => exact .leave m (t.withStorage storage)
  | misused => exact .leave m t

theorem trails_settleTop (m : Machine) (t : Site) (f : Fault) :
    Trails t (Host.left (m.settleTop t f)) := by
  have hleft : Host.left (m.settleTop t f) = m.leave (Exec.endSite (t.settle f)) := by
    unfold settleTop
    cases t.settle f <;> rfl
  rw [hleft]
  exact trails_settle m t f

theorem trails_commitTop (m : Machine) (t : Site) (value : Option Value) :
    Trails t (Host.left (m.commitTop t value)) := by
  unfold commitTop
  cases m.log.staged t.frame with
  | error e => exact trails_settleTop m t _
  | ok events =>
    simp only
    cases stage t.world.storage t.frame.terminations events with
    | error f => exact trails_settleTop m t f
    | ok staged =>
      simp only
      cases commitStaged m t.world.storage staged with
      | error e => exact .leave m t
      | ok committed =>
        simp only
        cases (m.log.flush t.frame).2.2.transition .done with
        | error e => exact .leave m t
        | ok f =>
          exact (Trails.leave _ (Site.note { (t.withStorage committed.storage) with frame := f } _)).after_step
            (.committed f.id f.meter.left) ⟨rfl, rfl⟩ rfl

/-- A transaction leaves a trail that its gas limit bounds. -/
theorem runTop_trail (budget : 0 ≤ r.gas) : ∃ steps, (Host.left (runTop r m)).trail = steps ++ m.trail ∧
    steps.Bounded r.gas m.settings.maxCallDepth := by
  have hmeter : GasMeter.ofBudget? r.gas = some ⟨r.gas, r.gas⟩ := if_neg (Int.not_lt.2 budget)
  have solvent : GasMeter.Solvent ⟨r.gas, r.gas⟩ := ⟨budget, Int.le_refl _⟩
  have lives := Exec.attempt_lives (s := m.topSite (m.topFrame r ⟨r.gas, r.gas⟩))
    (runBody_follows (nesting r.gas)) m.environment r rfl
  -- Whatever is done after the first frame has stopped at `t`, it is free of toll.
  have bounded {e : Option Fault} {t : Site} {m' : Machine} (trails : Trails t m')
      (ran : Run (.frame m.environment r) (m.topSite (m.topFrame r ⟨r.gas, r.gas⟩)) e t) :
      ∃ steps, m'.trail = steps ++ m.trail ∧ steps.Bounded r.gas m.settings.maxCallDepth := by
    obtain ⟨post, free, hpost⟩ := trails
    obtain ⟨steps, tolled⟩ := ran.tolled solvent
    have covered : steps.toll ≤ r.gas := tolled.covered
    have shallow : ∀ d ∈ steps.depths, m.settings.maxCallDepth.lt (.ofNat d) = false := tolled.shallow
    refine ⟨post ++ (steps ++ [.opened 0 none 0 r.storageAddress r.codeAddress r.gas]), ?_,
      (Trail.Bounded.of_toll covered shallow _ _ _ _).then_free free⟩
    rw [hpost, tolled.trail, List.append_assoc, List.append_assoc]
    rfl
  unfold runTop
  rw [hmeter]
  simp only
  cases hr : Exec.attempt (runBody (nesting r.gas)) m.environment r
      (m.topSite (m.topFrame r ⟨r.gas, r.gas⟩)) with
  | ok value t =>
    rw [hr] at lives
    exact bounded (trails_commitTop m t value) lives.1
  | error f t =>
    rw [hr] at lives
    exact bounded (trails_settleTop m t f) lives.1

/-- A call stays within its gas, whatever contracts there are.  Its code ends without
having run out of depth, and would end in the same way were any deeper nesting allowed.
It opens a frame for every 700 gas at most, beside the first one, and goes through with an
invocation for every 8; and beside the first frame none is deeper than the limit. -/
theorem call_bounded (m : Machine) (sender target : Address) (fn : String) (args : Args)
    (value : Int) (gas : Option Int) {limit : Int} (hlimit : limit = gas.getD m.settings.defaultGas)
    (budget : 0 ≤ limit) :
    (∀ depth, nesting limit ≤ depth → Concur
      (m.topSite (m.topFrame (topRequest sender target (.named fn) args value limit) ⟨limit, limit⟩))
      (Exec.attempt (runBody (nesting limit)) m.environment
        (topRequest sender target (.named fn) args value limit))
      (Exec.attempt (runBody depth) m.environment
        (topRequest sender target (.named fn) args value limit))) ∧
    ∃ steps, (Host.left (call sender target fn args value gas m)).trail = steps ++ m.trail ∧
      steps.Bounded limit m.settings.maxCallDepth := by
  refine ⟨fun depth hdepth => attempt_settles budget m _ hdepth, ?_⟩
  obtain ⟨steps, htrail, bounded⟩ := runTop_trail (m := m)
    (r := topRequest sender target (.named fn) args value limit) budget
  have noted {m' : Machine} {step : Step} (free : step.TollFree) (h : m'.trail = steps ++ m.trail) :
      ∃ steps, (m'.note step).trail = steps ++ m.trail ∧
        steps.Bounded limit m.settings.maxCallDepth :=
    ⟨step :: steps, congrArg (step :: ·) h, bounded.then_free (Trail.tollFree_single free)⟩
  unfold call
  simp only [← hlimit]
  cases spendable "call" value limit with
  | error e =>
    refine ⟨[], rfl, ⟨?_, Int.ediv_nonneg budget (by decide), fun _ h => nomatch h⟩⟩
    show (0 : Int) ≤ 1 + limit / 700
    omega
  | ok _ =>
    simp only
    cases hr : runTop (topRequest sender target (.named fn) args value limit) m with
    | error f m' =>
      rw [hr] at htrail
      exact ⟨steps, htrail, bounded⟩
    | ok out m' =>
      rw [hr] at htrail
      obtain ⟨outcome, events⟩ := out
      cases outcome with
      | committed v left => exact noted ⟨rfl, rfl⟩ htrail
      | reverted c left => exact noted ⟨rfl, rfl⟩ htrail

/-! ## A contract that calls itself -/

namespace Echo

/-- Calls itself until its gas is used up, each time through another function. -/
def shout (name next : String) : FunctionDef where
  name := name
  visibility := .external
  mutability := .mutating
  body := [.call { kind := .call, target := .env .self, fn := next, caught := some true }]

def code : ContractCode where
  name := "Echo"
  functions := [shout "ping" "pong", shout "pong" "ping"]

/-- No depth is too deep. -/
def settings : Settings := { Settings.standard with maxCallDepth := .infinite false }

def deployed : Machine :=
  (start settings fun _ => Bell.digest).perform [.deploy code ∅ Address.zero 0 none]

def heard (gas : Int) : EStateM.Result Fault Machine CallResult :=
  call Address.zero Bell.address "ping" ∅ 0 (some gas) deployed

end Echo

open Echo in
theorem call_bounded_echo : 4 < (Host.left (heard 4000)).trail.depths.length ∧
    ∃ steps, (Host.left (heard 4000)).trail = steps ++ deployed.trail ∧
      steps.Bounded 4000 deployed.settings.maxCallDepth := by
  have hlimit : (4000 : Int) = (some 4000).getD deployed.settings.defaultGas := rfl
  obtain ⟨-, steps, htrail, bounded⟩ := call_bounded deployed Address.zero Bell.address "ping" ∅ 0
    (some 4000) hlimit (by decide)
  exact ⟨by decide +kernel, steps, htrail, bounded⟩

end Machine

end ContractVM
