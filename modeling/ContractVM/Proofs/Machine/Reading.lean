/-
A call of a function that only reads leaves the machine as it was.

The first frame of such a call writes nothing, because its body may not, so the
layer it commits is empty and so are its buffers.  All that is left of the call is
an entry of the journal that says nothing happened.
-/
import ContractVM.Proofs.Exec.CaughtCall
import ContractVM.Proofs.Exec.Reading
import ContractVM.Proofs.Machine.Lasting

namespace ContractVM

namespace Machine

variable {m m' : Machine}

/-- Nothing of a machine has changed that a transaction may write to. -/
structure Untouched (m m' : Machine) : Prop where
  storage : m'.storage = m.storage
  registry : m'.registry = m.registry
  log : m'.log = m.log

/-- What a call comes to that wrote nothing: if it commits, it leaves an entry without
content. -/
inductive ReadOnly (m : Machine) : EStateM.Result Fault Machine CallResult → Prop
  | failed {f m'} (untouched : m.Untouched m') (journal : m'.journal = m.journal) :
    ReadOnly m (.error f m')
  | reverted {failure used m'} (untouched : m.Untouched m') (journal : m'.journal = m.journal) :
    ReadOnly m (.ok (.reverted failure used) m')
  | committed {v used m'} (untouched : m.Untouched m')
    (journal : ∃ entry, Codec.encodeEntry ⟨⟨[], [], []⟩, []⟩ = .ok entry ∧
      m'.journal = m.journal ++ [entry]) :
    ReadOnly m (.ok (.committed v used []) m')

theorem topSite_reads {sender target : Address} {fn : String} {c : Contract}
    {f : Owned FunctionDef} (found : m.registry.find? target = some c)
    (selected : c.function? fn = some f) (reading : f.item.mutability.rank < 2) (args : Args)
    (value gas : Int) (meter : GasMeter) :
    (Place.frame m.environment (topRequest sender target (.named fn) args value gas)).Reads
      (m.topSite (m.topFrame (topRequest sender target (.named fn) args value gas) meter)) := by
  intro c' b found' bound
  have hc : c' = c := Option.some.inj (found'.symm.trans found)
  subst hc
  cases Contract.bind_cases bound with
  | construct constructs => cases constructs
  | fallback named missing =>
    cases named
    exact nomatch missing.symm.trans selected
  | function named found pays =>
    cases named
    have hf := Option.some.inj (found.symm.trans selected)
    subst hf
    refine ⟨fun _ => Int.not_lt.1 fun hpos => ?_, fun sc entered => ?_⟩
    · rw [pays hpos] at reading
      exact absurd reading (by decide)
    · rw [List.mem_singleton.1 entered]
      exact Scope.not_mayWrite_iff.2 (.inr reading)

theorem Commits.untouched (idle : m.storage.layers = []) (commits : m.Commits .empty [] [] m') :
    m.Untouched m' ∧ ∃ entry, Codec.encodeEntry ⟨⟨[], [], []⟩, []⟩ = .ok entry ∧
      m'.journal = m.journal ++ [entry] := by
  refine ⟨⟨?_, commits.registry, ?_⟩, commits.journal⟩
  · rw [commits.storage]
    show (⟨m.storage.persisted, []⟩ : Storage) = m.storage
    rw [← idle]
  · rw [commits.log]
    show { m.log with entries := m.log.entries ++ [] } = m.log
    rw [List.append_nil]

/-- A first frame that wrote nothing ends on an empty layer. -/
theorem eq_empty_of_unchanged (idle : m.storage.layers = []) {f : Frame} {t : Site} {top : Layer}
    (unchanged : (m.topSite f).Unchanged t)
    (storage : t.world.storage = ⟨m.storage.persisted, [top]⟩) : top = .empty := by
  have hstorage : (⟨m.storage.persisted, [top]⟩ : Storage) =
      ⟨m.storage.persisted, .empty :: m.storage.layers⟩ := storage.symm.trans unchanged.storage
  rw [idle] at hstorage
  exact (List.cons.inj (Storage.mk.inj hstorage).2).1

theorem call_readOnly (idle : m.storage.layers = []) {sender target : Address} {fn : String}
    {c : Contract} {f : Owned FunctionDef} (found : m.registry.find? target = some c)
    (selected : c.function? fn = some f) (reading : f.item.mutability.rank < 2) (args : Args)
    (value : Int) (gas : Option Int) : m.ReadOnly (call sender target fn args value gas m) := by
  have ends := call_ends idle sender target fn args value gas
  generalize call sender target fn args value gas m = r at ends ⊢
  cases ends with
  | failed => exact .failed ⟨rfl, rfl, rfl⟩ rfl
  | reverted => exact .reverted ⟨rfl, rfl, rfl⟩ rfl
  | @committed meter t top _ m' _ _ _ budget ran storage commits _ =>
    have unchanged := ran.reads (topSite_reads found selected reading args value _ meter)
    have htop := eq_empty_of_unchanged idle unchanged storage
    have hpending : t.frame.pending = [] := unchanged.pending
    have hends : t.frame.terminations = [] := unchanged.terminations
    rw [htop, hpending, hends] at commits
    obtain ⟨untouched, entry⟩ := commits.untouched idle
    rw [hpending]
    exact .committed ⟨untouched.storage, untouched.registry, untouched.log⟩ entry

/-- A call of a view or pure function leaves the machine as it was, whatever it runs.  So
does every frame that is opened static, or by code of such a function, for its caller. -/
theorem reading_leaves_no_trace (reachable : m.Reachable) :
    (∀ (sender target : Address) (fn : String) (args : Args) (value : Int) (gas : Option Int)
      (c : Contract) (f : Owned FunctionDef), m.registry.find? target = some c →
      c.function? fn = some f → f.item.mutability = .view ∨ f.item.mutability = .pure →
      m.ReadOnly (call sender target fn args value gas m)) ∧
    ∀ (sc : Scope) (s : Site) (o : Opening sc s) (depth : Nat),
      o.request.flags.isStatic = true ∨ sc.mutability = .view ∨ sc.mutability = .pure →
      s.Unchanged (Exec.endSite (Exec.openFrame (runBody depth) sc.env o.request o.caller)) := by
  have hrank : ∀ a : Mutability, a = .view ∨ a = .pure → a.rank < 2 := by
    rintro a (rfl | rfl) <;> decide
  constructor
  · intro sender target fn args value gas c f found selected reading
    exact call_readOnly reachable.idle found selected (hrank _ reading) args value gas
  · intro sc s o depth h
    refine o.returns_unchanged (Scope.not_mayWrite_iff.2 ?_) depth
    rcases h with static | reading
    · rw [← decide_eq_true_iff (p := sc.mutability.rank < 2), ← Bool.or_eq_true]
      exact static
    · exact .inr (hrank _ reading)

/-! ## A view that tries to write -/

namespace Gauge

def level : FunctionDef where
  name := "level"
  visibility := .external
  mutability := .view
  body := [.call { kind := .call, target := .env .self, fn := "fill", caught := some true }]

def fill : FunctionDef where
  name := "fill"
  visibility := .external
  mutability := .mutating
  body := [.sstore (.const (.text "level")) (.const (.int 1))]

def code : ContractCode where
  name := "Gauge"
  functions := [level, fill]

def deployment : Operation := .deploy code ∅ Address.zero 0 none

def deployed : Machine := (start .standard fun _ => Bell.digest).perform [deployment]

def hasView (c : Contract) : Bool := (c.function? "level").any fun f => f.item.mutability = .view

/-- A scope that only reads, at a call of a function that writes. -/
def reader : Scope := { CaughtCall.scope with mutability := .view }

def opening : Opening reader CaughtCall.before where
  spec := CaughtCall.tryTake
  target := CaughtCall.vault
  callee := ⟨CaughtCall.vault, "Vault", .ofList [("take", ⟨"Vault", CaughtCall.take⟩)], ∅, [], none⟩
  args := ∅
  amount := 0
  requested := none
  charged := ⟨100000, 99300⟩
  paid := ⟨100000, 1551⟩
  meter := ⟨97749, 97749⟩
  target_valid := by decide +kernel
  found := Table.get?_set_self ..
  shallow := by decide +kernel
  writable := fun h => absurd h (by decide)
  delegated := fun _ => rfl
  unlocked := fun _ => by decide +kernel
  idle := rfl
  constructing := rfl
  fee := rfl
  forward := rfl
  budget := rfl

end Gauge

open Gauge in
theorem reading_leaves_no_trace_gauge :
    deployed.ReadOnly (call Address.zero Bell.address "level" ∅ 0 none deployed) ∧
      CaughtCall.before.Unchanged (Exec.endSite (Exec.openFrame (runBody 2) reader.env
        opening.request opening.caller)) := by
  have reachable : deployed.Reachable := ⟨.standard, _, [deployment], rfl⟩
  have hview : (deployed.registry.find? Bell.address).any hasView = true := by decide +kernel
  obtain ⟨c, found, hc⟩ := (Option.any_eq_true _ _).1 hview
  obtain ⟨f, selected, hf⟩ := (Option.any_eq_true _ _).1 hc
  exact ⟨(reading_leaves_no_trace reachable).1 _ _ _ _ _ _ c f found selected
      (.inl (of_decide_eq_true hf)),
    (reading_leaves_no_trace reachable).2 reader _ opening 2 (.inr (.inl rfl))⟩

end Machine
end ContractVM
