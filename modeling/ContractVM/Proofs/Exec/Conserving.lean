/-
What code cannot do to the storage as a whole.

Code writes slots and moves value; frames open layers, merge them and drop them.  A
property of storage that none of these breaks (`Storage.Invariant`) holds wherever code
gets to, in all its callees as well.  Dropping a layer needs no argument: it leads back
to the storage on which the layer was opened.

Such a property is that all balances add up to a given sum and none of them is negative
(`Storage.conserves`).
-/
import ContractVM.Proofs.Exec.Moment
import ContractVM.Proofs.Storage.Total

namespace ContractVM

variable {P : Storage → Prop}

/-- A property of storage that code keeps. -/
structure Storage.Invariant (P : Storage → Prop) : Prop where
  setSlot : ∀ {s t a key v}, P s → s.updateTop (·.setSlot a key v) = .ok t → P t
  transfer : ∀ {s t source target amount}, P s → s.transfer source target amount = .ok t → P t
  snapshot : ∀ {s}, P s → P s.snapshot
  commit : ∀ {s d t}, P s → s.commit = .ok (d, t) → P t

theorem Run.invariant {p : Place} {s t : Site} {e : Option Fault} (h : Run p s e t)
    (inv : Storage.Invariant P) (hs : P s.world.storage) : P t.world.storage := by
  -- A callee that failed leaves the storage on which it began.
  have undone {sc s t e u} (o : Opening sc s) (inner : Run (.frame sc.env o.request) o.site e t)
      (hr : t.world.storage.rollback = .ok u) (hs : P s.world.storage) : P u := by
    rw [Storage.rollback_above_snapshot (inner.above (List.cons_ne_nil _ _)) hr]
    exact hs
  induction h with
  | trans _ _ ih ih' => exact ih' (ih hs)
  | write _ h => exact inv.setSlot hs (Storage.write_eq_ok h).1
  | destroy _ _ h | send _ _ _ h | pay _ _ _ h => exact inv.transfer hs h
  | invoke _ _ _ _ ih | guarded _ _ _ _ _ ih | start _ _ _ _ ih => exact ih hs
  | committed o _ ended ih =>
    obtain ⟨d, storage, f, hc, -, rfl, -⟩ := Site.commitTo_eq ended
    exact inv.commit (ih (inv.snapshot hs)) hc
  | passed o inner ended | caught _ _ o inner ended =>
    obtain ⟨f, g, storage, -, hr, -, -, rfl⟩ := Site.revert_eq ended
    exact undone o inner hr hs
  | aborted o inner _ ended => exact undone o inner ended hs
  | refused _ _ ih => exact ih hs
  | failed _ _ admits _ _ ih ih' | finished _ _ admits _ _ _ ih ih' =>
    exact ih' (admits.storage ▸ ih hs)
  | _ => exact hs

/-- At every moment of the code of a frame and of its callees. -/
theorem Moment.invariant {p q : Place} {s u : Site} {K : List Activation} {e : Option Fault}
    (h : Moment p s K q e u) (inner : ∀ env r, q ≠ .frame env r) (inv : Storage.Invariant P)
    (hs : P s.world.storage) : P u.world.storage := by
  induction h with
  | now h => exact h.invariant inv hs
  | later h _ ih => exact ih inner (h.invariant inv hs)
  | invoke _ _ _ _ ih | guarded _ _ _ _ _ ih | start _ _ _ _ ih => exact ih inner hs
  | call o _ ih => exact ih inner (inv.snapshot hs)
  | bind _ _ ih => exact ih inner hs
  | execute entered _ ih =>
    obtain @⟨f, g, v, w, _, -, bind, admits, -⟩ := entered
    exact ih inner (admits.storage ▸ bind.invariant inv hs)
  | opened | refused | ended => exact absurd rfl (inner _ _)

/-- The balances add up to `n`, and none is negative. -/
def Storage.Holding (n : Int) (s : Storage) : Prop := s.total = n ∧ s.Debtless

theorem Storage.conserves (n : Int) : Storage.Invariant (Storage.Holding n) where
  setSlot := fun hs ht =>
    ⟨(congrArg Table.total (balances_setSlot ht)).trans hs.1, hs.2.setSlot ht⟩
  transfer := fun hs ht => ⟨(total_transfer ht).trans hs.1, hs.2.transfer ht⟩
  snapshot := fun hs => ⟨hs.1, hs.2.snapshot⟩
  commit := fun hs ht => ⟨(congrArg Table.total (balances_commit ht)).trans hs.1, hs.2.commit ht⟩

end ContractVM
