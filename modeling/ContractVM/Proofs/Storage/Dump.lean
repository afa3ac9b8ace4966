/-
What a dump shows of a layer.

A dump has the accounts in order, and the slots of each, so it is decided by what can be
looked up in the layer (`dump_congr`).  It shows all of that but one thing: whether an account
that has slots holds a balance of zero or none at all (`agrees_of_dump`).
-/
import ContractVM.Proofs.Storage.Refinement

namespace ContractVM

/-- Two layers hold the same, where a balance of zero counts as none if the account has
slots. -/
structure Layer.Agrees (l l' : Layer) : Prop where
  slots : ∀ a k, l.slot? a k = l'.slot? a k
  balances : ∀ a, l.balance? a = l'.balance? a ∨
    (∃ k, l.slot? a k ≠ none) ∧ (l.balance? a).getD 0 = 0 ∧ (l'.balance? a).getD 0 = 0

namespace Storage

variable {l l' : Layer} {a : Address}

/-! ## One account -/

theorem mem_account_slots {k : String} {v : Value} :
    (k, v) ∈ (account l a).slots ↔ l.slot? a k = some v := by
  have hget : ((l.slots.get? a).getD ∅).get? k = l.slot? a k := by
    unfold Layer.slot?
    cases l.slots.get? a <;> rfl
  rw [account, sortEntries, (List.mergeSort_perm ..).mem_iff, Table.mem_entries_iff, hget]

theorem nodup_account_slots (l : Layer) (a : Address) :
    ((account l a).slots.map Prod.fst).Nodup :=
  ((List.mergeSort_perm ..).map Prod.fst).nodup_iff.2 (Table.nodup _)

theorem account_congr (slots : ∀ k, l.slot? a k = l'.slot? a k)
    (balance : (l.balance? a).getD 0 = (l'.balance? a).getD 0) : account l a = account l' a := by
  have hslots : (account l a).slots = (account l' a).slots := by
    refine Text.eq_of_sorted_of_mem_iff Prod.fst (nodup_account_slots l a) (nodup_account_slots l' a)
      (Text.pairwise_mergeSort_le Prod.fst _) (Text.pairwise_mergeSort_le Prod.fst _) ?_
    rintro ⟨k, v⟩
    rw [mem_account_slots, mem_account_slots, slots]
  exact congrArg₂ (Account.mk a) balance hslots

/-! ## All accounts -/

theorem mem_addresses (full : l.Full) :
    a ∈ addresses l ↔ (∃ k, l.slot? a k ≠ none) ∨ l.balance? a ≠ none := by
  rw [addresses, (Text.sort_perm _).mem_iff, List.mem_eraseDups, List.mem_append,
    full.mem_keys_iff, Table.mem_keys_iff, ← Option.isSome_iff_exists, Option.isSome_iff_ne_none]
  exact Iff.rfl

theorem map_address_dump (s : Storage) : s.dump.map (·.address) = addresses s.persisted := by
  rw [dump, List.map_map]
  exact (List.map_congr_left fun _ _ => rfl).trans (List.map_id _)

theorem addresses_of_dump {s t : Storage} (h : s.dump = t.dump) :
    addresses s.persisted = addresses t.persisted := by
  rw [← map_address_dump, h, map_address_dump]

theorem addresses_congr (full : l.Full) (full' : l'.Full) (h : l.Agrees l') :
    addresses l = addresses l' := by
  refine Text.sort_eraseDups_congr fun a => ?_
  have hmem (m : Layer) : a ∈ m.slots.keys ++ m.balances.keys ↔ a ∈ addresses m := by
    rw [addresses, (Text.sort_perm _).mem_iff, List.mem_eraseDups]
  rw [hmem, hmem, mem_addresses full, mem_addresses full']
  simp only [h.slots]
  rcases h.balances a with hb | ⟨hslot, -⟩
  · rw [hb]
  · simp only [h.slots] at hslot
    exact iff_of_true (.inl hslot) (.inl hslot)

/-- Layers that agree give one dump, whatever the order of their writes. -/
theorem dump_congr {s t : Storage} (full : s.persisted.Full) (full' : t.persisted.Full)
    (h : s.persisted.Agrees t.persisted) : s.dump = t.dump := by
  rw [dump, dump, addresses_congr full full' h]
  refine List.map_congr_left fun a _ => account_congr (h.slots a) ?_
  rcases h.balances a with hb | ⟨-, hb, hb'⟩
  · rw [hb]
  · rw [hb, hb']

/-- An account without slots and without a balance looks the same in every layer. -/
theorem account_of_not_mem (full : l.Full) (ha : a ∉ addresses l) : account l a = ⟨a, 0, []⟩ := by
  rw [mem_addresses full, not_or, not_exists] at ha
  have hslots : (account l a).slots = [] := by
    refine List.eq_nil_iff_forall_not_mem.2 fun ⟨k, v⟩ hkv => ha.1 k ?_
    rw [mem_account_slots.1 hkv]
    exact Option.some_ne_none v
  have hbalance : (l.balance? a).getD 0 = 0 := by
    rw [Classical.not_not.1 ha.2]
    rfl
  exact congrArg₂ (Account.mk a) hbalance hslots

theorem account_eq_of_dump {s t : Storage} (full : s.persisted.Full) (full' : t.persisted.Full)
    (h : s.dump = t.dump) (a : Address) : account s.persisted a = account t.persisted a := by
  have haddresses := addresses_of_dump h
  by_cases ha : a ∈ addresses s.persisted
  · rw [dump, dump, ← haddresses] at h
    exact List.map_inj_left.1 h a ha
  · rw [account_of_not_mem full ha, account_of_not_mem full' (haddresses ▸ ha)]

/-- Layers with one dump agree. -/
theorem agrees_of_dump {s t : Storage} (full : s.persisted.Full) (full' : t.persisted.Full)
    (h : s.dump = t.dump) : s.persisted.Agrees t.persisted := by
  have haccount := account_eq_of_dump full full' h
  have hslots (a : Address) (k : String) : s.persisted.slot? a k = t.persisted.slot? a k := by
    refine Option.ext fun v => ?_
    rw [← mem_account_slots, ← mem_account_slots, haccount]
  refine ⟨hslots, fun a => ?_⟩
  have hbalance : (s.persisted.balance? a).getD 0 = (t.persisted.balance? a).getD 0 :=
    congrArg Account.balance (haccount a)
  have hmem : a ∈ addresses s.persisted ↔ a ∈ addresses t.persisted := by
    rw [addresses_of_dump h]
  rw [mem_addresses full, mem_addresses full'] at hmem
  simp only [hslots] at hmem ⊢
  cases hs : s.persisted.balance? a with
  | none =>
    cases ht : t.persisted.balance? a with
    | none => exact .inl rfl
    | some n =>
      rw [hs, ht] at hbalance hmem
      have hslot := (hmem.2 (.inr (Option.some_ne_none n))).resolve_right fun h => h rfl
      exact .inr ⟨hslot, rfl, hbalance.symm⟩
  | some n =>
    cases ht : t.persisted.balance? a with
    | none =>
      rw [hs, ht] at hbalance hmem
      have hslot := (hmem.1 (.inr (Option.some_ne_none n))).resolve_right fun h => h rfl
      exact .inr ⟨hslot, hbalance, rfl⟩
    | some n' =>
      rw [hs, ht] at hbalance
      exact .inl (congrArg some hbalance)

/-- Accounts of a dump are in order, so its members decide it. -/
theorem dump_eq_of_mem_iff {s t : Storage} (same : ∀ a, a ∈ s.dump ↔ a ∈ t.dump) :
    s.dump = t.dump := by
  have nodup (s : Storage) : (s.dump.map (·.address)).Nodup := by
    rw [map_address_dump]
    exact (Text.sort_perm _).nodup_iff.2 (Text.nodup_eraseDups _)
  have sorted (s : Storage) : s.dump.Pairwise fun a b => Text.le a.address b.address := by
    rw [← List.pairwise_map (R := fun a b => Text.le a b = true), map_address_dump]
    exact Text.pairwise_sort _
  exact Text.eq_of_sorted_of_mem_iff Account.address (nodup s) (nodup t) (sorted s) (sorted t) same

end Storage
end ContractVM
