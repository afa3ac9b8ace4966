/-
The value that storage holds.

A balance is hidden as soon as a layer above writes another one for its address, so
what balances add up to is not a sum over layers.  It is the total of the one table
that remains when every open layer is written over those below (`Storage.balances`),
from the persisted state up.  A write to the topmost layer is one to this table, and
merging a layer down does not change it.  Transfers therefore keep the total and leave
no balance negative.
-/
import Mathlib.Algebra.Ring.Int.Defs
import ContractVM.Proofs.Storage.Layer
import ContractVM.Proofs.Storage.Stack

namespace ContractVM

/-! ## Tables of amounts -/

namespace Table

variable {α : Type}

def total (t : Table Int) : Int := (t.entries.map Prod.snd).sum

theorem sum_place (k : String) (v : Int) (l : List (String × Int)) :
    ((place k v l).map Prod.snd).sum = (l.map Prod.snd).sum - (l.lookup k).getD 0 + v := by
  induction l with
  | nil => simp [place]
  | cons e rest ih =>
    obtain ⟨j, w⟩ := e
    rw [lookup_entry]
    by_cases h : j = k
    · rw [if_pos h.symm, place, if_pos h]
      simp only [List.map_cons, List.sum_cons, Option.getD_some]
      omega
    · rw [if_neg (Ne.symm h), place, if_neg h]
      simp only [List.map_cons, List.sum_cons, ih]
      omega

theorem total_set (t : Table Int) (k : String) (v : Int) :
    (t.set k v).total = t.total - (t.get? k).getD 0 + v := sum_place k v t.entries

theorem sum_filter_ne (k : String) {l : List (String × Int)} (nodup : (l.map Prod.fst).Nodup) :
    ((l.filter fun e => e.1 ≠ k).map Prod.snd).sum =
      (l.map Prod.snd).sum - (l.lookup k).getD 0 := by
  induction l with
  | nil => rfl
  | cons e rest ih =>
    obtain ⟨j, w⟩ := e
    rw [List.map_cons, List.nodup_cons] at nodup
    rw [lookup_entry, List.map_cons, List.sum_cons]
    by_cases h : j = k
    · subst h
      rw [if_pos rfl, List.filter_cons_of_neg (by simp), filter_ne_of_not_mem nodup.1,
        Option.getD_some]
      omega
    · rw [if_neg (Ne.symm h), List.filter_cons_of_pos (by simp [h]), List.map_cons, List.sum_cons,
        ih nodup.2]
      omega

theorem total_erase (t : Table Int) (k : String) :
    (t.erase k).total = t.total - (t.get? k).getD 0 := sum_filter_ne k t.nodup

/-- Dropping different names takes away what each of them had. -/
theorem total_foldl_erase (t : Table Int) {ks : List String} (nodup : ks.Nodup) :
    (ks.foldl erase t).total = t.total - (ks.map fun k => (t.get? k).getD 0).sum := by
  induction ks generalizing t with
  | nil =>
    show t.total = t.total - 0
    omega
  | cons k rest ih =>
    rw [List.nodup_cons] at nodup
    have kept : rest.map (fun j => ((t.erase k).get? j).getD 0) =
        rest.map fun j => (t.get? j).getD 0 := by
      refine List.map_congr_left fun j hj => ?_
      rw [get?_erase, if_neg fun h : j = k => nodup.1 (h ▸ hj)]
    rw [List.foldl_cons, ih _ nodup.2, total_erase, kept, List.map_cons, List.sum_cons]
    omega

/-- What is written over a table that was itself written over another one. -/
theorem setAll_setAll (t u : Table α) (entries : List (String × α)) :
    t.setAll (u.setAll entries).entries = (t.setAll u.entries).setAll entries := by
  induction entries generalizing u with
  | nil => rfl
  | cons e rest ih => exact (ih (u.set e.1 e.2)).trans (congrArg (setAll · rest) (setAll_set ..))

end Table

/-! ## Balances -/

namespace Storage

variable {s t : Storage}

/-- All balances, with the open layers written over the persisted state. -/
def balances (s : Storage) : Table Int :=
  s.layers.foldr (fun top below => below.setAll top.balances.entries) s.persisted.balances

/-- What all balances add up to. -/
def total (s : Storage) : Int := s.balances.total

theorem balanceOf_eq (s : Storage) (a : Address) : s.balanceOf a = (s.balances.get? a).getD 0 := by
  obtain ⟨p, ls⟩ := s
  unfold balanceOf balances
  refine congrArg (Option.getD · 0) ?_
  induction ls with
  | nil =>
    rw [List.nil_append, List.findSome?_singleton]
    rfl
  | cons top below ih =>
    rw [List.foldr_cons, Table.get?_setAll _ top.balances.nodup, ← ih, List.cons_append,
      List.findSome?_cons]
    show _ = (top.balance? a).or _
    cases top.balance? a <;> rfl

theorem balances_setBalance {a : Address} {n : Int} (h : s.setBalance a n = .ok t) :
    t.balances = s.balances.set a n := by
  obtain ⟨p, top, below, rfl, rfl⟩ := updateTop_eq_ok h
  exact Table.setAll_set _ top.balances a n

theorem balances_setSlot {a : Address} {key : String} {v : Value}
    (h : s.updateTop (·.setSlot a key v) = .ok t) : t.balances = s.balances := by
  obtain ⟨p, top, below, rfl, rfl⟩ := updateTop_eq_ok h
  rfl

theorem balances_commit {d : Option Delta} (h : s.commit = .ok (d, t)) :
    t.balances = s.balances := by
  rcases commit_eq_ok h with ⟨p, last, rfl, rfl⟩ | ⟨p, top, next, below, rfl, rfl⟩
  · rfl
  · exact Table.setAll_setAll _ next.balances top.balances.entries

theorem total_setBalance {a : Address} {n : Int} (h : s.setBalance a n = .ok t) :
    t.total = s.total - s.balanceOf a + n := by
  unfold total
  rw [balances_setBalance h, Table.total_set, balanceOf_eq]

theorem balanceOf_setBalance {a b : Address} {n : Int} (h : s.setBalance a n = .ok t) :
    t.balanceOf b = if b = a then n else s.balanceOf b := by
  rw [balanceOf_eq, balanceOf_eq, balances_setBalance h, Table.get?_set]
  by_cases hb : b = a
  · rw [if_pos hb, if_pos hb]
    rfl
  · rw [if_neg hb, if_neg hb]

theorem total_transfer {source target : Address} {amount : Int}
    (h : s.transfer source target amount = .ok t) : t.total = s.total := by
  rcases transfer_eq_ok h with ⟨-, rfl⟩ | ⟨-, -, paid, hpaid, ht⟩
  · rfl
  · rw [total_setBalance ht, total_setBalance hpaid]
    omega

/-! ## No debts -/

/-- No balance is negative, whether it is persisted or in an open layer, in sight or
hidden by another layer. -/
structure Debtless (s : Storage) : Prop where
  persisted : ∀ e ∈ s.persisted.balances.entries, 0 ≤ e.2
  layers : ∀ l ∈ s.layers, ∀ e ∈ l.balances.entries, 0 ≤ e.2

theorem nonneg_setAll {u : Table Int} {entries : List (String × Int)}
    (hu : ∀ e ∈ u.entries, 0 ≤ e.2) (h : ∀ e ∈ entries, 0 ≤ e.2) :
    ∀ e ∈ (u.setAll entries).entries, 0 ≤ e.2 := by
  induction entries generalizing u with
  | nil => exact hu
  | cons f rest ih =>
    refine ih (fun e he => ?_) fun e he => h e (List.mem_cons_of_mem f he)
    rcases Table.mem_place he with rfl | he
    · exact h f List.mem_cons_self
    · exact hu e he

namespace Debtless

theorem empty : empty.Debtless := ⟨fun _ h => (nomatch h), fun _ h => (nomatch h)⟩

theorem balances (h : s.Debtless) : ∀ e ∈ s.balances.entries, 0 ≤ e.2 := by
  obtain ⟨p, ls⟩ := s
  obtain ⟨hp, hls⟩ := h
  unfold Storage.balances
  induction ls with
  | nil => exact hp
  | cons top below ih =>
    exact nonneg_setAll (ih hp fun l hl => hls l (List.mem_cons_of_mem top hl))
      (hls top List.mem_cons_self)

theorem balanceOf (h : s.Debtless) (a : Address) : 0 ≤ s.balanceOf a := by
  rw [balanceOf_eq]
  cases hget : s.balances.get? a with
  | none => exact Int.le_refl 0
  | some n => exact h.balances (a, n) (Table.mem_entries_iff.2 hget)

theorem snapshot (h : s.Debtless) : s.snapshot.Debtless where
  persisted := h.persisted
  layers := List.forall_mem_cons.2 ⟨fun _ he => (nomatch he), h.layers⟩

theorem updateTop (h : s.Debtless) {f : Layer → Layer}
    (hf : ∀ l : Layer, (∀ e ∈ l.balances.entries, 0 ≤ e.2) → ∀ e ∈ (f l).balances.entries, 0 ≤ e.2)
    (ht : s.updateTop f = .ok t) : t.Debtless where
  persisted := by
    rw [(above_updateTop ht).persisted]
    exact h.persisted
  layers := forall_updateTop h.layers hf ht

theorem setBalance (h : s.Debtless) {a : Address} {n : Int} (hn : 0 ≤ n)
    (ht : s.setBalance a n = .ok t) : t.Debtless := by
  refine h.updateTop (fun l hl e he => ?_) ht
  rcases Table.mem_place he with rfl | he
  · exact hn
  · exact hl e he

theorem setSlot (h : s.Debtless) {a : Address} {key : String} {v : Value}
    (ht : s.updateTop (·.setSlot a key v) = .ok t) : t.Debtless :=
  h.updateTop (f := fun l => l.setSlot a key v) (fun _ hl => hl) ht

theorem transfer (h : s.Debtless) {source target : Address} {amount : Int}
    (ht : s.transfer source target amount = .ok t) : t.Debtless := by
  rcases transfer_eq_ok ht with ⟨-, rfl⟩ | ⟨hpos, hle, paid, hpaid, ht⟩
  · exact h
  · have paid_debtless := h.setBalance (by omega) hpaid
    have hbalance := paid_debtless.balanceOf target
    exact paid_debtless.setBalance (by omega) ht

theorem commit (h : s.Debtless) {d : Option Delta} (ht : s.commit = .ok (d, t)) : t.Debtless := by
  obtain ⟨layers, persisted⟩ := forall_commit h.layers (fun _ _ hl hu => nonneg_setAll hl hu) ht
  exact ⟨persisted h.persisted, layers⟩

theorem rollback (h : s.Debtless) (ht : s.rollback = .ok t) : t.Debtless where
  persisted := by
    obtain ⟨top, rfl⟩ := rollback_eq_ok ht
    exact h.persisted
  layers := forall_rollback h.layers ht

end Debtless

end Storage

end ContractVM
