/-
A call of a pure function gives the same on machines with the same contracts.

Whatever the two have persisted, whatever block they are in and whoever sends the call: as
long as no function that the pure function calls may read and does (`Machine.unread`), its host
is answered the same (`pure_calls_agree`).  A function that may read is called in a static
frame like any other, so what it reads gets through to a pure caller (`pure_call_tells`).
-/
import ContractVM.Proofs.Exec.ObliviousCode
import ContractVM.Proofs.Machine.Reading

namespace ContractVM

open Exec

/-- What a host is told, without the machine. -/
def Host.answer {α : Type} : EStateM.Result Fault Machine α → Except Fault α
  | .ok a _ => .ok a
  | .error f _ => .error f

namespace Machine

variable {m n : Machine}

/-! ## Transactions that may write nothing -/

/-- What the host is told of a first frame that wrote nothing. -/
def verdict : EStateM.Result Fault Site (Option Value) → Except Fault (Outcome × List LoggedEvent)
  | .ok v t => .ok (.committed v t.frame.meter.left, [])
  | .error (.raised c p) t => .ok (.reverted c (t.frame.meter.fail (c.kind.policy p)).left, [])
  | .error f _ => .error f

/-- A transaction that may write nothing commits, or fails for its own reasons. -/
theorem runTop_answer {r : Request} (idle : m.storage.layers = [])
    (direct : r.storageAddress = r.codeAddress) {meter : GasMeter}
    (budget : GasMeter.ofBudget? r.gas = some meter)
    (reads : (Place.frame m.environment r).Reads (m.topSite (m.topFrame r meter))) :
    Host.answer (runTop r m) = verdict (attempt (runBody (nesting r.gas)) m.environment r
      (m.topSite (m.topFrame r meter))) := by
  have lives := attempt_lives (s := m.topSite (m.topFrame r meter))
    (runBody_follows (nesting r.gas)) m.environment r rfl
  unfold runTop
  rw [budget]
  simp only
  generalize attempt (runBody (nesting r.gas)) m.environment r (m.topSite (m.topFrame r meter)) =
    res at lives ⊢
  cases res with
  | ok v t =>
    have unchanged := lives.1.reads reads
    obtain ⟨top, storage, hcommit⟩ := commitTop_cases idle direct lives.1 lives.2 v
    have htop := eq_empty_of_unchanged idle unchanged storage
    have hpending : t.frame.pending = [] := unchanged.pending
    have hends : t.frame.terminations = [] := unchanged.terminations
    rw [htop, hpending, hends] at hcommit
    rcases hcommit with ⟨f, -, hentry, -⟩ | ⟨m', hcommit, -⟩
    · have written : (Codec.encodeEntry ⟨⟨[], [], []⟩, []⟩).toOption.isSome = true := by
        decide +kernel
      have herror : Codec.encodeEntry ⟨⟨[], [], []⟩, []⟩ = .error f := hentry
      rw [herror] at written
      cases written
    · simp only [hcommit]
      rfl
  | error f t =>
    have topmost := Topmost.of_run lives.1
    simp only
    by_cases hf : ∃ c p, f = .raised c p
    · obtain ⟨c, p, rfl⟩ := hf
      obtain ⟨left, t', trail, ended, hsettle⟩ := settleTop_raised topmost c p lives.2
      rw [hsettle, Site.left_revert ended]
      rfl
    · have foreign : ∀ c p, f ≠ .raised c p := fun c p h => hf ⟨c, p, h⟩
      obtain ⟨trail, hsettle⟩ := settleTop_foreign topmost foreign
      rw [hsettle]
      cases f with
      | raised c p => exact absurd rfl (foreign c p)
      | _ => rfl

/-- What the host of a call is told, from what it is told of the transaction. -/
def conclude (limit : Int) : Outcome × List LoggedEvent → CallResult
  | (.committed v left, events) => .committed v (limit - left) events
  | (.reverted c left, _) => .reverted c.failure (limit - left)

theorem call_answer (m : Machine) (sender target : Address) (fn : String) (args : Args) (value : Int)
    (gas : Option Int) :
    Host.answer (call sender target fn args value gas m) = (do
      match spendable "call" value (gas.getD m.settings.defaultGas) with
      | .error e => .error (.misuse e)
      | .ok () => return conclude (gas.getD m.settings.defaultGas) (← Host.answer (runTop
          (topRequest sender target (.named fn) args value (gas.getD m.settings.defaultGas)) m))) := by
  unfold call
  simp only
  cases spendable "call" value (gas.getD m.settings.defaultGas) with
  | error e => rfl
  | ok _ =>
    simp only
    generalize runTop (topRequest sender target (.named fn) args value
      (gas.getD m.settings.defaultGas)) m = res
    cases res with
    | error f m' => rfl
    | ok r m' =>
      obtain ⟨out, events⟩ := r
      cases out <;> rfl

/-! ## Machines with the same contracts -/

/-- Two machines at rest that differ in what they persist and in their blocks, but not in their
contracts, nor in what their settings allow a call. -/
structure Twins (m n : Machine) : Prop where
  idle : m.storage.layers = [] ∧ n.storage.layers = []
  locks : n.locks = m.locks
  live : ∀ a, n.registry.find? a = m.registry.find? a
  retired : ∀ a, a ∈ n.registry.retired ↔ a ∈ m.registry.retired
  defaultGas : n.settings.defaultGas = m.settings.defaultGas
  maxCallDepth : n.settings.maxCallDepth = m.settings.maxCallDepth

theorem Twins.environment (h : m.Twins n) : m.environment.Alike n.environment where
  find? := h.live
  isRetired := fun a => decide_eq_decide.2 (h.retired a)
  maxCallDepth := h.maxCallDepth

theorem Twins.topSite (h : m.Twins n) (r : Request) (meter : GasMeter) (caller origin : Address) :
    (m.topSite (m.topFrame r meter)).Alike r.flags
      (n.topSite (n.topFrame { r with caller := caller, origin := origin } meter)) := by
  have layers : n.storage.layers = m.storage.layers := h.idle.2.trans h.idle.1.symm
  have alike : (m.topSite (m.topFrame r meter)).Alike r.flags
      ⟨⟨⟨n.storage.persisted, .empty :: m.storage.layers⟩, m.locks, _, 1⟩,
        n.topFrame { r with caller := caller, origin := origin } meter, ∅⟩ :=
    .mk n.storage.persisted
      (n.topSite (n.topFrame { r with caller := caller, origin := origin } meter)).world.trail
      (.mk _ rfl rfl rfl)
  rw [← layers, ← h.locks] at alike
  exact alike

/-- Whether no instruction that a transaction comes to reads, but for those of pure functions,
which fail if they try. -/
def unread (m : Machine) (r : Request) : Bool :=
  match GasMeter.ofBudget? r.gas with
  | none => true
  | some meter =>
    match attempt (runUnread (nesting r.gas)) m.environment r (m.topSite (m.topFrame r meter)) with
    | .error .exhausted _ => false
    | _ => true

/-- Frames that end alike are told alike, unless the first gave up. -/
theorem verdict_congr {flags : FrameFlags} {res res' : EStateM.Result Fault Site (Option Value)}
    (ends : Agree flags res res') (unspared : ∀ t, res ≠ .error .exhausted t) :
    verdict res = verdict res' := by
  cases ends with
  | ok v alike => simp only [verdict, alike.meter]
  | error f alike =>
    cases f with
    | raised c p => simp only [verdict, alike.meter]
    | _ => rfl
  | @spared t _ => exact absurd rfl (unspared t)

theorem runTop_congr (h : m.Twins n) {r : Request} (direct : r.storageAddress = r.codeAddress)
    {caller origin : Address} {r' : Request} (hr' : r' = { r with caller := caller, origin := origin })
    (reads : r.Reads m.environment r.flags) (reads' : r'.Reads n.environment r.flags)
    (unread : m.unread r = true) : Host.answer (runTop r m) = Host.answer (runTop r' n) := by
  subst hr'
  cases budget : GasMeter.ofBudget? r.gas with
  | none =>
    unfold runTop
    simp only [budget]
    rfl
  | some meter =>
    have unspared : ∀ t, attempt (runUnread (nesting r.gas)) m.environment r
        (m.topSite (m.topFrame r meter)) ≠ .error .exhausted t := by
      intro t ht
      unfold Machine.unread at unread
      simp only [budget, ht] at unread
      cases unread
    have own := attempt_oblivious (runUnread_oblivious (nesting r.gas)) (.refl m.environment) reads
      r.caller r.origin _ _ (.refl (s := m.topSite (m.topFrame r meter)) rfl)
    have other := attempt_oblivious (runUnread_oblivious (nesting r.gas)) h.environment reads
      caller origin _ _ (h.topSite r meter caller origin)
    rw [runTop_answer h.idle.1 direct budget reads,
      runTop_answer (r := { r with caller := caller, origin := origin }) h.idle.2 direct budget reads']
    exact (verdict_congr own unspared).symm.trans (verdict_congr other unspared)

/-- The host of a pure call that reads nothing is answered the same on machines with the same
contracts, whoever sends it and whatever the machines have persisted. -/
theorem pure_calls_agree (h : m.Twins n) {target : Address} {fn : String} {c : Contract}
    {f : Owned FunctionDef} (found : m.registry.find? target = some c)
    (declared : c.function? fn = some f) (pure : f.item.mutability = .pure)
    (sender sender' : Address) (args : Args) (gas : Option Int)
    (unread : m.unread (topRequest sender target (.named fn) args 0
      (gas.getD m.settings.defaultGas)) = true) :
    Host.answer (call sender target fn args 0 gas m) =
      Host.answer (call sender' target fn args 0 gas n) := by
  have found' : n.registry.find? target = some c := (h.live target).trans found
  have reading : f.item.mutability.rank < 2 := by
    rw [pure]
    decide
  rw [call_answer, call_answer, h.defaultGas]
  have reads : (topRequest sender target (.named fn) args 0 (gas.getD m.settings.defaultGas)).Reads
      m.environment (topFlags false) :=
    topSite_reads found declared reading args 0 _ ⟨0, 0⟩
  have reads' : (topRequest sender' target (.named fn) args 0 (gas.getD m.settings.defaultGas)).Reads
      n.environment (topFlags false) :=
    topSite_reads found' declared reading args 0 _ ⟨0, 0⟩
  rw [runTop_congr h rfl rfl reads reads' unread]
  rfl

/-! ## A pure function that asks one that is not -/

theorem registry_fund (idle : m.storage.layers = []) (a : Address) (amount : Int) :
    ((Operation.fund a amount).after m).registry = m.registry := by
  have ends := (Operation.fund a amount).ends idle
  generalize (Operation.fund a amount).succeeds m = b at ends
  generalize (Operation.fund a amount).after m = m' at ends ⊢
  cases ends with
  | failed => rfl
  | funded commits => exact commits.registry

namespace Purse

def level : FunctionDef where
  name := "level"
  returns := some .uint256
  visibility := .external
  mutability := .view
  body := [.ret (.balance (.env .self))]

/-- Gives what is in the purse, though it may not look. -/
def peek : FunctionDef where
  name := "peek"
  returns := some .uint256
  visibility := .external
  mutability := .pure
  body := [
    .call { kind := .call, target := .const (.text Bell.address), fn := "level", result := some "n" },
    .ret (.local "n")]

def size : FunctionDef where
  name := "size"
  returns := some .uint256
  visibility := .external
  mutability := .pure
  body := [.ret (.const (.int 7))]

/-- Calls the fallback, which is no pure function and might look, and a pure function. -/
def ask : FunctionDef where
  name := "ask"
  returns := some .uint256
  visibility := .external
  mutability := .pure
  body := [
    .call { kind := .call, target := .const (.text Bell.address), fn := "" },
    .call { kind := .call, target := .const (.text Bell.address), fn := "size", result := some "n" },
    .ret (.local "n")]

def code : ContractCode where
  name := "Purse"
  fallback := some { body := [.branch (.const (.bool false)) [.ret (.balance (.env .self))] none] }
  functions := [level, peek, size, ask]

def poor : Machine := (start .standard fun _ => Bell.digest).perform [.deploy code ∅ Address.zero 0 none]

def rich : Machine := (Operation.fund Bell.address 5).after poor

theorem poor_reachable : poor.Reachable := ⟨.standard, _, [.deploy code ∅ Address.zero 0 none], rfl⟩

theorem rich_reachable : rich.Reachable := poor_reachable.after (.fund Bell.address 5)

theorem registry_rich : rich.registry = poor.registry :=
  registry_fund poor_reachable.idle Bell.address 5

theorem settings_rich : rich.locks = poor.locks ∧
    rich.settings.defaultGas = poor.settings.defaultGas ∧
    rich.settings.maxCallDepth = poor.settings.maxCallDepth := by decide +kernel

theorem twins : poor.Twins rich where
  idle := ⟨poor_reachable.idle, rich_reachable.idle⟩
  locks := settings_rich.1
  live := fun a => by rw [registry_rich]
  retired := fun a => by rw [registry_rich]
  defaultGas := settings_rich.2.1
  maxCallDepth := settings_rich.2.2

/-- Whether a contract has a pure function of a name. -/
def hasPure (fn : String) (c : Contract) : Bool :=
  (c.function? fn).any fun f => f.item.visibility = .external ∧ f.item.mutability = .pure

theorem of_hasPure (fn : String)
    (h : (poor.registry.find? Bell.address).any (hasPure fn) = true) :
    ∃ c f, poor.registry.find? Bell.address = some c ∧ c.function? fn = some f ∧
      f.item.visibility = .external ∧ f.item.mutability = .pure := by
  obtain ⟨c, found, hc⟩ := (Option.any_eq_true _ _).1 h
  obtain ⟨f, declared, hf⟩ := (Option.any_eq_true _ _).1 hc
  exact ⟨c, f, found, declared, of_decide_eq_true hf⟩

end Purse

open Purse in
theorem pure_calls_agree_purse :
    poor.unread (topRequest Address.zero Bell.address (.named "ask") ∅ 0
      ((none : Option Int).getD poor.settings.defaultGas)) = true ∧
    Host.answer (call Address.zero Bell.address "ask" ∅ 0 none poor) =
      Host.answer (call Bell.address Bell.address "ask" ∅ 0 none rich) := by
  have unread : poor.unread (topRequest Address.zero Bell.address (.named "ask") ∅ 0
      ((none : Option Int).getD poor.settings.defaultGas)) = true := by decide +kernel
  obtain ⟨c, f, found, declared, -, pure⟩ := of_hasPure "ask" (by decide +kernel)
  exact ⟨unread, pure_calls_agree twins found declared pure Address.zero Bell.address ∅ none unread⟩

open Purse in
/-- A pure function tells what a view function that it calls has read. -/
theorem pure_call_tells :
    (poor.Reachable ∧ rich.Reachable ∧ poor.Twins rich) ∧
    (∃ c f, poor.registry.find? Bell.address = some c ∧ c.function? "peek" = some f ∧
      f.item.visibility = .external ∧ f.item.mutability = .pure) ∧
    ∃ used, (Host.answer (call Address.zero Bell.address "peek" ∅ 0 none poor)).toOption =
        some (.committed (some (.int 0)) used []) ∧
      (Host.answer (call Address.zero Bell.address "peek" ∅ 0 none rich)).toOption =
        some (.committed (some (.int 5)) used []) := by
  have pure := of_hasPure "peek" (by decide +kernel)
  refine ⟨⟨poor_reachable, rich_reachable, twins⟩, pure, 900, ?_, ?_⟩
  · decide +kernel
  · decide +kernel

end Machine
end ContractVM
