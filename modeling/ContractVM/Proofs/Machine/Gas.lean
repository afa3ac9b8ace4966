/-
The gas of a transaction.

A transaction starts with a full meter, so every frame in it is solvent whenever one
of its instructions is about to run, and every call is fair.  The trail shows it as
well: what a frame tells of its gas goes down from its budget.  A frame that fails
leaves what it had or nothing, depending on who is to blame.  What a host is charged
for a call therefore lies between nothing and the limit it gave.
-/
import ContractVM.Proofs.Exec.Boundaries
import ContractVM.Proofs.Exec.Passing
import ContractVM.Proofs.Machine.Reading

namespace ContractVM

def CallResult.gasUsed : CallResult → Int
  | .committed _ used _ => used
  | .reverted _ used => used

namespace Machine

variable {m m' : Machine} {env : Environment} {r : Request} {meter : GasMeter}

/-- Code that is about to run an instruction has gas, within the budget of its frame. -/
theorem solvent_moment (budget : GasMeter.ofBudget? r.gas = some meter) {K : List Activation}
    {sc : Scope} {u : Site}
    (h : Moment (.frame env r) (m.topSite (m.topFrame r meter)) K (.body sc) none u) :
    u.frame.meter.Solvent :=
  h.solvent (fun _ _ h => by cases h) .none (GasMeter.ofBudget?_eq_some budget).2

theorem topSite_metering (budget : GasMeter.ofBudget? r.gas = some meter) {e : Option Fault}
    {t : Site} (h : Run (.frame env r) (m.topSite (m.topFrame r meter)) e t) :
    ∃ steps, t.world.trail = steps ++ m.trail ∧ ∀ f, steps.Untold f ∨ steps.Falls f := by
  obtain ⟨hmeter, solvent⟩ := GasMeter.ofBudget?_eq_some budget
  have hlevel : meter.budget = meter.left := by rw [hmeter]
  obtain ⟨steps, metering⟩ := h.metering Nat.zero_lt_one solvent
  have hmetered : steps.Metered 0 1 t.world.opened meter.budget := by
    rw [hlevel]
    exact metering.metered
  have mute : ∀ step ∈ ([] : Trail), step.Mute := fun _ hstep => nomatch hstep
  refine ⟨Closing.around [] steps 0 none 0 r.storageAddress r.codeAddress meter.budget, ?_,
    fun f => (hmetered.enclosed mute f).imp_right fun ⟨_, _, falls⟩ => falls⟩
  rw [metering.trail]
  exact (List.append_assoc steps [_] m.trail).symm

theorem attempt_falls (budget : GasMeter.ofBudget? r.gas = some meter) (depth : Nat) :
    ∃ steps, (Exec.endSite (Exec.attempt (runBody depth) env r
      (m.topSite (m.topFrame r meter)))).world.trail = steps ++ m.trail ∧
      ∀ f, steps.Untold f ∨ steps.Falls f := by
  have lives := Exec.attempt_lives (s := m.topSite (m.topFrame r meter)) (runBody_follows depth) env r
    rfl
  cases hres : Exec.attempt (runBody depth) env r (m.topSite (m.topFrame r meter)) with
  | ok v t | error f t =>
    rw [hres] at lives
    exact topSite_metering budget lives.1

theorem runTop_fails (budget : GasMeter.ofBudget? r.gas = some meter) {c : Cause} {p : Bool}
    {t : Site} (h : Exec.attempt (runBody (nesting r.gas)) m.environment r
      (m.topSite (m.topFrame r meter)) = .error (.raised c p) t) :
    ∃ left m', runTop r m = .ok (.reverted c left, []) m' ∧ t.Leaves c left := by
  have lives := Exec.attempt_lives (s := m.topSite (m.topFrame r meter))
    (runBody_follows (nesting r.gas)) m.environment r rfl
  rw [h] at lives
  have calm : (m.topSite (m.topFrame r meter)).world.trail.Calm :=
    .of_latest? (Trail.latest?_cons rfl _) rfl
  obtain ⟨left, t', trail, ended, hsettle⟩ :=
    settleTop_raised (Topmost.of_run lives.1) c p lives.2
  refine ⟨left, { m with trail := trail }, ?_, Site.leaves_of_revert ended (lives.1.passes calm)⟩
  unfold runTop
  rw [budget]
  simp only [h]
  exact hsettle

/-- What is left of a meter once its frame has ended, one way or another. -/
theorem left_of_run (budget : GasMeter.ofBudget? r.gas = some meter) {e : Option Fault} {t : Site}
    (h : Run (.frame env r) (m.topSite (m.topFrame r meter)) e t) (contained : Contained e) :
    t.frame.meter.Solvent ∧ t.frame.meter.left ≤ r.gas := by
  obtain ⟨hmeter, solvent⟩ := GasMeter.ofBudget?_eq_some budget
  have hspends := h.spends contained solvent
  have hle : t.frame.meter.left ≤ meter.left := hspends.2.1
  rw [hmeter] at hle
  exact ⟨solvent.of_spends hspends, hle⟩

theorem call_gasUsed (idle : m.storage.layers = []) {sender target : Address} {fn : String}
    {args : Args} {value : Int} {gas : Option Int} {res : CallResult}
    (h : call sender target fn args value gas m = .ok res m') :
    0 ≤ res.gasUsed ∧ res.gasUsed ≤ gas.getD m.settings.defaultGas := by
  have ends := call_ends idle sender target fn args value gas
  rw [h] at ends
  cases ends with
  | @reverted meter t t' c p left budget ran ended =>
    obtain ⟨solvent, hle⟩ := left_of_run budget ran (.raised c p)
    obtain ⟨hnonneg, hless⟩ := solvent.fail (c.kind.policy p)
    rw [← Site.left_revert ended] at hnonneg hless
    exact ⟨Int.sub_nonneg.2 (Int.le_trans hless hle), Int.sub_le_self _ hnonneg⟩
  | @committed _ t _ _ _ _ _ _ budget ran =>
    obtain ⟨solvent, hle⟩ := left_of_run budget ran .none
    exact ⟨Int.sub_nonneg.2 hle, Int.sub_le_self _ solvent.nonneg⟩

/-- The gas of a transaction adds up.  At every instruction of every frame what is left lies
between nothing and the budget, and it goes down from one instruction to the next.  A call
hands on no more than it may and gets back no more than it has paid for.  A frame that fails
leaves nothing if it burns its gas by its own fault, and else what it had, and a host is
never charged more than the limit it gave. -/
theorem gas_accounted (reachable : m.Reachable) :
    (∀ (env : Environment) (r : Request) (meter : GasMeter), GasMeter.ofBudget? r.gas = some meter →
      (∀ K sc u, Moment (.frame env r) (m.topSite (m.topFrame r meter)) K (.body sc) none u →
        u.frame.meter.Solvent ∧ ∀ (o : Opening sc u) (depth : Nat), o.Fair (runBody depth)) ∧
      ∀ depth, ∃ steps, (Exec.endSite (Exec.attempt (runBody depth) env r
          (m.topSite (m.topFrame r meter)))).world.trail = steps ++ m.trail ∧
        ∀ f, steps.Untold f ∨ steps.Falls f) ∧
    (∀ (registry : Registry) (r : Request) (meter : GasMeter),
      GasMeter.ofBudget? r.gas = some meter → ∀ c p t,
      Exec.attempt (runBody (nesting r.gas)) { m with registry := registry }.environment r
        (m.topSite (m.topFrame r meter)) = .error (.raised c p) t →
      ∃ left m', runTop r { m with registry := registry } = .ok (.reverted c left, []) m' ∧
        t.Leaves c left) ∧
    (∀ (sc : Scope) (s : Site) (o : Opening sc s) (depth : Nat) c p t,
      Exec.attempt (runBody depth) sc.env o.request o.site = .error (.raised c p) t →
      ∃ left t', Exec.openFrame (runBody depth) sc.env o.request o.caller =
        .ok (.reverted c left) t' ∧ t.Leaves c left) ∧
    ∀ (sender target : Address) (fn : String) (args : Args) (value : Int) (gas : Option Int)
      (res : CallResult) (m' : Machine), call sender target fn args value gas m = .ok res m' →
      0 ≤ res.gasUsed ∧ res.gasUsed ≤ gas.getD m.settings.defaultGas := by
  refine ⟨fun env r meter budget => ⟨fun K sc u h => ?_, attempt_falls budget⟩, ?_, ?_, ?_⟩
  · have solvent := solvent_moment budget h
    exact ⟨solvent, fun o depth => o.fair (runBody_follows depth) solvent⟩
  · intro registry r meter budget c p t h
    exact runTop_fails (m := { m with registry := registry }) budget h
  · intro sc s o depth c p t h
    exact Exec.openFrame_fails (runBody_follows depth) o h
  · intro sender target fn args value gas res m' h
    exact call_gasUsed reachable.idle h

/-! ## A frame that burns its gas -/

namespace Gauge

/-- Whether a frame failed at an instruction that may not write. -/
def isViolated : EStateM.Result Fault Site (Option Value) → Bool
  | .error (.raised c _) t =>
    decide (c.kind = .staticViolation) && (t.world.trail.latest?.bind Step.boundary?).isSome
  | _ => false

theorem of_isViolated {res : EStateM.Result Fault Site (Option Value)}
    (h : isViolated res = true) :
    ∃ c p t, res = .error (.raised c p) t ∧ c.kind.Burns ∧ ¬ t.world.trail.Passes c := by
  unfold isViolated at h
  split at h
  · next c p t =>
    rw [Bool.and_eq_true] at h
    refine ⟨c, p, t, rfl, .inr (.inr (of_decide_eq_true h.1)), ?_⟩
    rintro ⟨f, depth, code, q, left, hlatest⟩
    rw [hlatest] at h
    exact Bool.false_ne_true h.2
  · cases h

end Gauge

theorem gas_accounted_gauge :
    (∃ res m', Bell.rung = .ok res m' ∧ 0 ≤ res.gasUsed ∧
      res.gasUsed ≤ Bell.deployed.settings.defaultGas) ∧
    ∃ c t', Exec.openFrame (runBody 2) Gauge.reader.env Gauge.opening.request Gauge.opening.caller =
      .ok (.reverted c 0) t' := by
  have reachable : Bell.deployed.Reachable := ⟨.standard, _, [Bell.deployment], rfl⟩
  obtain ⟨-, -, fails, charges⟩ := gas_accounted reachable
  constructor
  · have hgave : Host.gave Bell.rung = true := by decide +kernel
    cases hr : Bell.rung with
    | error f m' =>
      rw [hr] at hgave
      cases hgave
    | ok res m' => exact ⟨res, m', rfl, charges _ _ _ _ _ none res m' hr⟩
  · have violated : Gauge.isViolated (Exec.attempt (runBody 2) Gauge.reader.env
        Gauge.opening.request Gauge.opening.site) = true := by decide +kernel
    obtain ⟨c, p, t, hres, burns, blamed⟩ := Gauge.of_isViolated violated
    obtain ⟨left, t', hopen, leaves⟩ := fails Gauge.reader _ Gauge.opening 2 c p t hres
    rw [leaves.burnt burns blamed] at hopen
    exact ⟨c, t', hopen⟩

end Machine
end ContractVM
