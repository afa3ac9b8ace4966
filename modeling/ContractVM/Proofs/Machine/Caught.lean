/-
What reaches the host of what goes wrong in code.

A failure of code is the result of the call, at whatever depth it is raised.  Two faults
are none: a frame asks for less than no gas, and what the code has done cannot be written
down.  `call_answers` shows that a call ends in one of four ways, and that the host gets a
result from code without negative constants, whatever else it does
(`Exec.attempt_keeps`), unless there is more to write than any host can hold.
Code with a negative constant can have either fault (`call_throws_miser`).
-/
import ContractVM.Proofs.Machine.Bounds
import ContractVM.Proofs.Machine.Unsigned

namespace ContractVM

/-! ## Faults of code -/

/-- The faults that code can end with. -/
inductive Fault.OfCode : Fault → Prop
  | raised (c : Cause) (p : Bool) : OfCode (.raised c p)
  | negativeBudget : OfCode .negativeBudget
  | exhausted : OfCode .exhausted

/-- With a layer to write to and no callee left running, code has no other faults. -/
theorem Run.ofCode {p : Place} {s t : Site} {e : Option Fault} (h : Run p s e t)
    (layers : s.world.storage.layers ≠ []) (idle : s.frame.active = none) :
    ∀ f, e = some f → f.OfCode := by
  induction h with
  | trans first _ _ ih' => exact ih' (first.above layers).layers_ne (first.same.active.trans idle)
  | raise | blocked | passed | occupied =>
    rintro _ ⟨⟩
    exact .raised _ _
  | stuck m meter h => exact absurd h fun h => h.elim layers fun h => h idle
  | exhaust =>
    rintro _ ⟨⟩
    exact .exhausted
  | overdraw =>
    rintro _ ⟨⟩
    exact .negativeBudget
  | invoke _ _ _ _ ih | guarded _ _ _ _ _ ih | start _ _ _ _ ih => exact ih layers idle
  | aborted o _ _ _ ih => exact ih (List.cons_ne_nil _ _) rfl
  | refused moved _ ih => exact ih layers ((Frame.same_transition moved).active.trans idle)
  | failed moved bind admits moved' _ _ ih' =>
    exact ih' (admits.storage ▸ (bind.above layers).layers_ne)
      ((Frame.Same.entered moved bind admits moved').active.trans idle)
  | _ => exact fun _ h => nomatch h

/-! ## Entries that can be written -/

theorem journalled_writable {top : Layer} {terminations : List Address} {events : List Event}
    {base : Nat} (formed : JournalEntry.WellFormed
      ⟨{ top.delta with destroyed := terminations.eraseDups }, EventLog.number base events⟩)
    (slots : top.Unsigned) (balances : ∀ e ∈ top.balances.entries, 0 ≤ e.2)
    (hevents : ∀ e ∈ events, e.Unsigned) (P : Fault → Prop) (large : ∀ f : Fault, f.Oversize → P f) :
    JournalEntry.Writable P
      ⟨{ top.delta with destroyed := terminations.eraseDups }, EventLog.number base events⟩ where
  slots := by
    intro w hw
    have hslot := slots _ _ _ (Layer.mem_delta_slots.1 hw)
    refine ⟨Codec.addressItem_valid (formed.slots w hw), Codec.valueItem_nonneg fun n hn => ?_⟩
    rw [hn] at hslot
    exact Value.unsigned_int.1 hslot
  balances := by
    intro b hb
    obtain ⟨e, he, hbe⟩ := List.mem_map.1 hb
    refine ⟨Codec.addressItem_valid (formed.balances b hb), Codec.intItem_nonneg ?_⟩
    rw [← hbe]
    exact balances e he
  destroyed := fun a ha => Codec.addressItem_valid (formed.destroyed a ha)
  events := by
    intro v hv
    obtain ⟨e, he, -, hfields, n, hn⟩ := Codec.exists_place hv
    refine ⟨Codec.addressItem_valid (formed.events v hv).1, ?_, fun f hf => ?_⟩
    · rw [hn]
      exact (Codec.indexItem_fails n).mono large
    · refine Codec.valueItem_nonneg fun k hk => ?_
      have hvalue := hevents e he f (hfields ▸ hf)
      rw [hk] at hvalue
      exact Value.unsigned_int.1 hvalue

namespace Machine

variable {m : Machine} {r : Request}

/-- The first frame of a request, up to its commit. -/
def firstFrame (m : Machine) (r : Request) : EStateM.Result Fault Site (Option Value) :=
  Exec.attempt (runBody (nesting r.gas)) m.environment r (m.topSite (m.topFrame r ⟨r.gas, r.gas⟩))

theorem runTop_eq (budget : 0 ≤ r.gas) : runTop r m = match m.firstFrame r with
    | .ok v t => m.commitTop t v
    | .error f t => m.settleTop t f := by
  have hmeter : GasMeter.ofBudget? r.gas = some ⟨r.gas, r.gas⟩ := if_neg (Int.not_lt.2 budget)
  unfold runTop
  rw [hmeter]
  rfl

theorem firstFrame_ok {v : Option Value} {t : Site} (h : m.firstFrame r = .ok v t) :
    Run (.frame m.environment r) (m.topSite (m.topFrame r ⟨r.gas, r.gas⟩)) none t ∧
      t.frame.phase = .committing := by
  have lives := Exec.attempt_lives (s := m.topSite (m.topFrame r ⟨r.gas, r.gas⟩))
    (runBody_follows (nesting r.gas)) m.environment r rfl
  unfold firstFrame at h
  rw [h] at lives
  exact lives

/-- The first frame fails, or it gives up the transaction with a negative budget. -/
theorem firstFrame_fault (budget : 0 ≤ r.gas) {f : Fault} {t : Site} (h : m.firstFrame r = .error f t) :
    Run (.frame m.environment r) (m.topSite (m.topFrame r ⟨r.gas, r.gas⟩)) (some f) t ∧
      (t.frame.phase = .binding ∨ t.frame.phase = .executing) ∧
      ((∃ c p, f = .raised c p) ∨ f = .negativeBudget) := by
  have lives := Exec.attempt_lives (s := m.topSite (m.topFrame r ⟨r.gas, r.gas⟩))
    (runBody_follows (nesting r.gas)) m.environment r rfl
  have deep := (attempt_settles budget m r (Nat.le_refl (nesting r.gas))).deep t
  unfold firstFrame at h
  rw [h] at lives deep
  refine ⟨lives.1, lives.2, ?_⟩
  cases lives.1.ofCode (List.cons_ne_nil _ _) rfl f rfl with
  | raised c p => exact .inl ⟨c, p, rfl⟩
  | negativeBudget => exact .inr rfl
  | exhausted => exact absurd rfl deep

/-! ## The ways in which a call ends -/

/-- The entry that a first frame would write that ended at `t`, with `top` as its layer. -/
def entry (m : Machine) (t : Site) (top : Layer) : JournalEntry :=
  ⟨{ top.delta with destroyed := t.frame.terminations.eraseDups },
    EventLog.number m.log.size t.frame.pending⟩

/-- What becomes of a call whose request is `r`, by how its first frame ends. -/
inductive Answers (m : Machine) (r : Request) : EStateM.Result Fault Machine CallResult → Prop
  | committed {v t used logged m'} (ran : m.firstFrame r = .ok v t) :
    Answers m r (.ok (.committed v used logged) m')
  | reverted {c p t used m'} (ran : m.firstFrame r = .error (.raised c p) t) :
    Answers m r (.ok (.reverted c.failure used) m')
  | overdrawn {t m'} (ran : m.firstFrame r = .error .negativeBudget t) :
    Answers m r (.error .negativeBudget m')
  | unwritten {v t top f m'} (ran : m.firstFrame r = .ok v t)
    (storage : t.world.storage = ⟨m.storage.persisted, [top]⟩)
    (entry : Codec.encodeEntry (m.entry t top) = .error f) (unwritten : f.Unwritten) :
    Answers m r (.error f m')

theorem answers_call (idle : m.storage.layers = []) (sender target : Address) (fn : String)
    (args : Args) {value : Int} (hvalue : 0 ≤ value) {gas : Option Int}
    (hgas : 0 ≤ gas.getD m.settings.defaultGas) :
    m.Answers (topRequest sender target (.named fn) args value (gas.getD m.settings.defaultGas))
      (call sender target fn args value gas m) := by
  unfold call
  simp only [spendable_eq_ok_iff.2 ⟨hvalue, hgas⟩]
  rw [runTop_eq hgas]
  generalize hr : topRequest sender target (.named fn) args value (gas.getD m.settings.defaultGas) = r
  have budget : 0 ≤ r.gas := hr ▸ hgas
  have direct : r.storageAddress = r.codeAddress := hr ▸ rfl
  cases hframe : m.firstFrame r with
  | ok v t =>
    obtain ⟨ran, hphase⟩ := firstFrame_ok hframe
    obtain ⟨top, storage, ⟨f, trail, hentry, hcommit⟩ | ⟨m', hcommit, -⟩⟩ :=
      commitTop_cases idle direct ran hphase v
    · simp only [hcommit]
      exact .unwritten hframe storage hentry (Codec.encodeEntry_unwritten _ _ _ f hentry)
    · simp only [hcommit]
      exact .committed hframe
  | error f t =>
    obtain ⟨ran, hphase, hf⟩ := firstFrame_fault budget hframe
    have topmost := Topmost.of_run ran
    rcases hf with ⟨c, p, rfl⟩ | rfl
    · obtain ⟨left, t', trail, -, hsettle⟩ := settleTop_raised topmost c p hphase
      simp only [hsettle]
      exact .reverted hframe
    · obtain ⟨trail, hsettle⟩ := settleTop_foreign topmost (f := .negativeBudget) nofun
      simp only [hsettle]
      exact .overdrawn hframe

/-- Where nothing is negative, a call gives the host a result unless there is too much to
write. -/
theorem Answers.result {res : EStateM.Result Fault Machine CallResult} (h : m.Answers r res)
    (idle : m.storage.layers = []) (nonneg : m.Unsigned)
    (live : m.registry.Every fun a _ => Address.isValid a = true)
    (direct : r.storageAddress = r.codeAddress) (hvalue : 0 ≤ r.value) (budget : 0 ≤ r.gas)
    (caller : Address.isValid r.caller = true) (target : Address.isValid r.storageAddress = true) :
    (∃ a m', res = .ok a m') ∨ ∃ f m', res = .error f m' ∧ f.Oversize := by
  have solvent : GasMeter.Solvent ⟨r.gas, r.gas⟩ := ⟨budget, Int.le_refl _⟩
  have kept : Polite _ (m.firstFrame r) :=
    Exec.attempt_keeps (runBody_polite (nesting r.gas)) nonneg.environment r _
      (nonneg.topSite solvent hvalue)
  cases h with
  | committed ran => exact .inl ⟨_, _, rfl⟩
  | reverted ran => exact .inl ⟨_, _, rfl⟩
  | overdrawn ran =>
    rw [ran] at kept
    exact absurd rfl kept.2
  | @unwritten v t top f m' ran storage entry =>
    rw [ran] at kept
    have slots := kept.1.storage.slots
    have balances := kept.1.storage.debtless.layers
    rw [storage] at slots balances
    have named (a : Address) (ha : m.registry.find? a ≠ none) : Address.isValid a = true := by
      obtain ⟨c, hc⟩ := Option.ne_none_iff_exists'.1 ha
      exact live a c hc
    obtain ⟨within, hends, hevents⟩ :=
      addressed_of_run idle named direct (firstFrame_ok ran).1 storage caller target
    have writable := journalled_writable (journalled_wellFormed within hends hevents m.log.size)
      (slots top List.mem_cons_self) (balances top List.mem_cons_self) kept.1.frame.pending
      Fault.Oversize fun _ hf => hf
    exact .inr ⟨f, m', rfl, Codec.encodeEntry_fails writable (fun _ hf => hf) f entry⟩

/-- Whatever a host has done, a call that it can pay for ends with the result of the code
or with its failure, unless the code asks for a negative budget or does what no entry can
hold.  Neither happens, but for size, if the host has deployed no code with negative
constants and set no negative block. -/
theorem call_answers (settings : Settings) (hash : Bytes → Bytes) (ops : List Operation)
    (hm : m = (start settings hash).perform ops) (sender target : Address) (fn : String)
    (args : Args) {value : Int} (hvalue : 0 ≤ value) {gas : Option Int}
    (hgas : 0 ≤ gas.getD m.settings.defaultGas) :
    m.Answers (topRequest sender target (.named fn) args value (gas.getD m.settings.defaultGas))
        (call sender target fn args value gas m) ∧
      ((∀ op ∈ ops, op.unsigned = true) → Address.isValid sender = true →
        Address.isValid target = true →
          (∃ res m', call sender target fn args value gas m = .ok res m') ∨
            ∃ f m', call sender target fn args value gas m = .error f m' ∧ f.Oversize) := by
  have fresh : (start settings hash).Reachable := ⟨settings, hash, [], rfl⟩
  have reachable : m.Reachable := ⟨settings, hash, ops, hm⟩
  have answers := answers_call reachable.idle sender target fn args hvalue hgas
  refine ⟨answers, fun hops hsender htarget => ?_⟩
  have nonneg : m.Unsigned := hm ▸ unsigned_perform fresh (unsigned_start settings hash) hops
  have live : m.registry.Every fun a _ => Address.isValid a = true :=
    hm ▸ addressed_perform fresh (fun _ _ h => nomatch h) ops
  exact answers.result reachable.idle nonneg live rfl hvalue hgas hsender htarget

open Bell in
theorem call_answers_bell :
    deployed.Answers (topRequest Address.zero address (.named "ring") ∅ 0 100000)
        (call Address.zero address "ring" ∅ 0 (some 100000) deployed) ∧
      ((∃ res m', call Address.zero address "ring" ∅ 0 (some 100000) deployed = .ok res m') ∨
        ∃ f m', call Address.zero address "ring" ∅ 0 (some 100000) deployed = .error f m' ∧
          f.Oversize) := by
  have hvalue : (0 : Int) ≤ 0 := by decide
  have hgas : 0 ≤ (some (100000 : Int)).getD deployed.settings.defaultGas := by
    show (0 : Int) ≤ 100000
    decide
  have checked : deployment.unsigned = true ∧ Address.isValid Address.zero = true ∧
      Address.isValid address = true := by decide +kernel
  have hops : ∀ op ∈ [deployment], op.unsigned = true := fun op hop => by
    rw [List.mem_singleton.1 hop]
    exact checked.1
  obtain ⟨answers, result⟩ := call_answers .standard (fun _ => digest) [deployment] deployed.eq_1
    Address.zero address "ring" ∅ hvalue hgas
  exact ⟨answers, result hops checked.2.1 checked.2.2⟩

/-! ## A contract with negative constants -/

namespace Miser

/-- Calls itself, with less than no gas. -/
def poke : FunctionDef where
  name := "poke"
  visibility := .external
  mutability := .mutating
  body := [.call { kind := .call, target := .env .self, fn := "poke", gas := some (.const (.int (-1))) }]

/-- Writes what no entry can hold. -/
def owe : FunctionDef where
  name := "owe"
  visibility := .external
  mutability := .mutating
  body := [.sstore (.const (.text "debt")) (.const (.int (-1)))]

def code : ContractCode where
  name := "Miser"
  functions := [poke, owe]

def deployment : Operation := .deploy code ∅ Address.zero 0 none

def deployed : Machine := (start .standard fun _ => Bell.digest).perform [deployment]

def thrown (fn : String) : Option Fault :=
  match call Address.zero Bell.address fn ∅ 0 (some 100000) deployed with
  | .ok _ _ => none
  | .error f _ => some f

end Miser

open Miser in
/-- A contract that was deployed like any other, and what calls of it throw. -/
theorem call_throws_miser : deployment.wellAddressed = true ∧
    deployment.succeeds (start .standard fun _ => Bell.digest) = true ∧
    thrown "poke" = some .negativeBudget ∧ thrown "owe" = some (.hex (.notHex "-1" 0)) := by
  decide +kernel

end Machine

end ContractVM
