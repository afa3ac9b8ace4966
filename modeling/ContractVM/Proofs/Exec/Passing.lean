/-
Who is to blame for the failure of a frame.

A frame fails by itself, or it passes on the failure of a callee, and the latter
keeps its gas whatever happened.  The code marks the difference with a flag.  The
trail tells it without: a frame passes a failure on exactly if the last thing that
happened before it failed is that a callee was undone because of the same failure
(`Run.passes`).  Locks that are released on the way do not count.
-/
import ContractVM.Proofs.Exec.Life
import ContractVM.Proofs.Exec.Solvent
import ContractVM.Proofs.Trail.Lasting

namespace ContractVM

def Step.isRelease : Step → Bool
  | .unlocked .. => true
  | _ => false

namespace Trail

/-- The latest step that does more than release a lock. -/
def latest? (t : Trail) : Option Step := t.find? fun step => !step.isRelease

/-- A callee has just been undone because of `c`. -/
def Passes (t : Trail) (c : Cause) : Prop :=
  ∃ f depth code p left, t.latest? = some (.reverted f depth code c p left)

/-- No callee has just been undone. -/
def Calm (t : Trail) : Prop := ∀ c, ¬ t.Passes c

theorem latest?_cons {step : Step} (h : step.isRelease = false) (t : Trail) :
    latest? (step :: t) = some step := by
  unfold latest?
  rw [List.find?_cons_of_pos (by rw [h]; rfl)]

theorem latest?_releases (f : Nat) (tokens : List LockToken) (t : Trail) :
    latest? (releases f tokens ++ t) = t.latest? := by
  have hnone : (releases f tokens).find? (fun step => !step.isRelease) = none := by
    rw [List.find?_eq_none]
    intro step hstep
    obtain ⟨l, -, rfl⟩ := List.mem_map.1 (List.mem_reverse.1 hstep)
    exact fun h => nomatch h
  unfold latest?
  rw [List.find?_append, hnone]
  rfl

theorem Calm.of_latest? {step : Step} {t : Trail} (h : t.latest? = some step)
    (hstep : step.undoing? = none) : t.Calm := by
  rintro c ⟨f, depth, code, p, left, hlatest⟩
  rw [Option.some.inj (h.symm.trans hlatest)] at hstep
  cases hstep

/-- What the trail tells of the end of some code: nobody has failed just now if the
code goes on, and a failure is that of a callee if it is marked so. -/
def Tells (t : Trail) : Option Fault → Prop
  | none => t.Calm
  | some (.raised c propagated) => propagated = true ↔ t.Passes c
  | some _ => True

theorem Calm.tells_raised {t : Trail} (h : t.Calm) (c : Cause) :
    t.Tells (some (.raised c false)) :=
  ⟨fun hp => absurd hp Bool.false_ne_true, fun hp => absurd hp (h c)⟩

theorem Tells.congr {t u : Trail} {e : Option Fault} (h : t.Tells e)
    (hlatest : u.latest? = t.latest?) : u.Tells e := by
  have hpasses : ∀ c, u.Passes c ↔ t.Passes c := fun c => by
    unfold Passes
    rw [hlatest]
  cases e with
  | none => exact fun c hc => h c ((hpasses c).1 hc)
  | some f =>
    cases f with
    | raised c p => exact Iff.trans h (hpasses c).symm
    | _ => trivial

end Trail

open Trail

theorem Site.Admits.calm {env : Environment} {r : Request} {s t : Site} {b : Bool}
    (h : s.Admits env r b t) (calm : s.world.trail.Calm) : t.world.trail.Calm := by
  cases h with
  | freely => exact calm
  | locking => exact .of_latest? (latest?_cons rfl _) rfl

/-- What is marked as the failure of a callee is one, and nothing else is. -/
theorem Run.passes {p : Place} {s t : Site} {e : Option Fault} (h : Run p s e t)
    (calm : s.world.trail.Calm) : t.world.trail.Tells e := by
  induction h with
  | refl => exact calm
  | trans _ _ ih ih' => exact ih' (ih calm)
  | raise c _ => exact calm.tells_raised c
  | stuck | exhaust | overdraw => trivial
  | spend | assign | write | send | pay => exact calm
  | blocked | occupied => exact calm.tells_raised _
  | boundary | emit | destroy | jump | swallow => exact .of_latest? (latest?_cons rfl _) rfl
  | invoke _ _ _ _ ih => exact ih calm
  | guarded _ _ _ _ _ ih =>
    have inner := ih (.of_latest? (latest?_cons rfl _) rfl)
    exact inner.congr (latest?_releases _ [_] _)
  | committed o inner ended =>
    obtain ⟨d, storage, f, -, -, rfl, -⟩ := Site.commitTo_eq ended
    refine .of_latest? ((latest?_releases _ _ _).trans (latest?_cons rfl _)) rfl
  | passed o inner ended =>
    obtain ⟨f, g, storage, -, -, -, -, rfl⟩ := Site.revert_eq ended
    exact ⟨fun _ => ⟨_, _, _, _, _, (latest?_releases _ _ _).trans (latest?_cons rfl _)⟩,
      fun _ => rfl⟩
  | caught => exact .of_latest? (latest?_cons rfl _) rfl
  | @aborted _ _ _ f _ _ _ foreign =>
    cases f with
    | raised c p => exact absurd rfl (foreign c p)
    | _ => trivial
  | start _ _ _ _ ih => exact ih calm
  | refused _ _ ih => exact ih calm
  | failed _ _ admits _ _ ih ih' => exact ih' (admits.calm (ih calm))
  | finished _ _ admits _ _ _ ih ih' => exact ih' (admits.calm (ih calm))

/-! ## Gas of a frame that failed -/

/-- The failures that burn the gas of the frame that is to blame. -/
def FailureKind.Burns (kind : FailureKind) : Prop :=
  kind = .outOfGas ∨ kind = .assertFailed ∨ kind = .staticViolation

theorem FailureKind.policy_eq_assertFail_iff {kind : FailureKind} {propagated : Bool} :
    kind.policy propagated = .assertFail ↔ kind.Burns ∧ propagated = false := by
  unfold Burns
  cases propagated with
  | true => simp [policy]
  | false => cases kind <;> simp [policy]

theorem GasMeter.fail_of_ne (m : GasMeter) {p : FailurePolicy} (h : p ≠ .assertFail) :
    m.fail p = m := by
  cases p with
  | assertFail => exact absurd rfl h
  | requireFail | revertFail => rfl

/-- What is left of the gas of a frame that failed at `t` because of `c`. -/
structure Site.Leaves (t : Site) (c : Cause) (left : Int) : Prop where
  burnt : c.kind.Burns → ¬ t.world.trail.Passes c → left = 0
  kept : ¬ c.kind.Burns ∨ t.world.trail.Passes c → left = t.frame.meter.left

theorem Site.leaves_of_revert {t t' : Site} {c : Cause} {p : Bool} {left : Int}
    (h : t.revert c p = .ok (.reverted c left, t')) (passes : p = true ↔ t.world.trail.Passes c) :
    t.Leaves c left := by
  rw [Site.left_revert h]
  constructor
  · intro burns blamed
    have hp : p = false := Bool.eq_false_iff.2 fun hp => blamed (passes.1 hp)
    rw [FailureKind.policy_eq_assertFail_iff.2 ⟨burns, hp⟩]
    rfl
  · intro kept
    rw [GasMeter.fail_of_ne]
    intro hpolicy
    obtain ⟨burns, hp⟩ := FailureKind.policy_eq_assertFail_iff.1 hpolicy
    rcases kept with harmless | hpassed
    · exact harmless burns
    · rw [passes.2 hpassed] at hp
      cases hp

/-- A frame that begins where nobody has failed just now, and fails. -/
theorem Exec.attempt_fails {run : Runner} (hrun : run.Sound) {env : Environment} {r : Request}
    {s t : Site} (pending : s.frame.phase = .pending) (calm : s.world.trail.Calm)
    (open_ : s.world.storage.layers ≠ []) {c : Cause} {p : Bool}
    (h : attempt run env r s = .error (.raised c p) t) :
    ∃ left t', t.revert c p = .ok (.reverted c left, t') ∧ t.Leaves c left := by
  have lives := attempt_lives hrun env r pending
  rw [h] at lives
  obtain ⟨left, t', ended⟩ := revert_eq_ok c p (lives.1.above open_).layers_ne lives.2
  exact ⟨left, t', ended, Site.leaves_of_revert ended (lives.1.passes calm)⟩

theorem Exec.openFrame_fails {run : Runner} (hrun : run.Sound) {sc : Scope} {s t : Site}
    (o : Opening sc s) {c : Cause} {p : Bool}
    (h : attempt run sc.env o.request o.site = .error (.raised c p) t) :
    ∃ left t', openFrame run sc.env o.request o.caller = .ok (.reverted c left) t' ∧
      t.Leaves c left := by
  have calm : o.site.world.trail.Calm := .of_latest? (Trail.latest?_cons rfl _) rfl
  obtain ⟨left, t', ended, leaves⟩ := attempt_fails hrun rfl calm (List.cons_ne_nil _ _) h
  rw [openFrame_eq, h]
  simp only [settle_raised ended]
  exact ⟨left, _, rfl, leaves⟩

end ContractVM
