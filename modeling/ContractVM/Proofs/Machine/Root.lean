/-
The state root of a machine can be taken.

What a machine has persisted was in the entries of its journal, and an entry is encoded
before it is merged.  So every part of the persisted state can be encoded once more, and only
an account that is too large as a whole has no leaf (`stateRoot_fails`).
-/
import ContractVM.Proofs.Exec.Within
import ContractVM.Proofs.Machine.Atomic
import ContractVM.Proofs.Storage.Writes

namespace ContractVM

open Codec

theorem exists_of_mapM {α β : Type} {f : α → Except Fault β} {l : List α} {bs : List β}
    (h : l.mapM f = .ok bs) {a : α} (ha : a ∈ l) : ∃ b, f a = .ok b := by
  induction l generalizing bs with
  | nil => cases ha
  | cons c rest ih =>
    rw [List.mapM_cons] at h
    obtain ⟨b, hb, h⟩ := bind_eq_ok.1 h
    obtain ⟨bs', hrest, -⟩ := bind_eq_ok.1 h
    rcases List.mem_cons.1 ha with rfl | ha
    · exact ⟨b, hb⟩
    · exact ih hrest ha

/-! ## Layers that can be encoded -/

/-- Every slot and every balance of the layer can be encoded, and no account has a table of
slots with nothing in it. -/
structure Layer.Encodable (l : Layer) : Prop where
  within : l.Within (fun _ => True) (fun _ => True)
  slots : ∀ w ∈ l.delta.slots, ∃ i, slotItem w = .ok i
  balances : ∀ b ∈ l.delta.balances, ∃ i, balanceItem b = .ok i

namespace Layer

variable {l top : Layer}

theorem Within.foldl_erase {slot bal : Address → Prop} (h : l.Within slot bal) (as : List Address) :
    (as.foldl erase l).Within slot bal := by
  induction as generalizing l with
  | nil => exact h
  | cons a rest ih =>
    refine ih ⟨fun e he => h.slots e ?_, fun e he => h.balances e ?_⟩
    · exact (List.mem_filter.1 he).1
    · exact (List.mem_filter.1 he).1

theorem encodable_empty : empty.Encodable where
  within := .empty
  slots := fun _ h => (nomatch h)
  balances := fun _ h => (nomatch h)

/-- A layer that was journalled, whatever was destroyed with it, can be encoded. -/
theorem encodable_of_entry (within : top.Within (fun _ => True) (fun _ => True))
    {destroyed : List Address} {events : List LoggedEvent} {entry : Bytes}
    (h : encodeEntry ⟨{ top.delta with destroyed := destroyed }, events⟩ = .ok entry) :
    top.Encodable := by
  obtain ⟨delta, hdelta, -⟩ := bind_eq_ok.1 h
  obtain ⟨slots, hslots, hdelta⟩ := bind_eq_ok.1 hdelta
  obtain ⟨balances, hbalances, -⟩ := bind_eq_ok.1 hdelta
  exact ⟨within, fun w hw => exists_of_mapM hslots hw, fun b hb => exists_of_mapM hbalances hb⟩

theorem Encodable.merge (h : l.Encodable) (htop : top.Encodable) : (l.merge top).Encodable where
  within := h.within.merge htop.within
  slots := by
    intro w hw
    rw [mem_delta_slots, slot?_merge, Option.or_eq_some_iff] at hw
    rcases hw with hw | ⟨-, hw⟩
    · exact htop.slots w (mem_delta_slots.2 hw)
    · exact h.slots w (mem_delta_slots.2 hw)
  balances := by
    intro b hb
    rw [mem_delta_balances, balance?_merge, Option.or_eq_some_iff] at hb
    rcases hb with hb | ⟨-, hb⟩
    · exact htop.balances b (mem_delta_balances.2 hb)
    · exact h.balances b (mem_delta_balances.2 hb)

theorem Encodable.foldl_erase (h : l.Encodable) (as : List Address) :
    (as.foldl erase l).Encodable where
  within := h.within.foldl_erase as
  slots := by
    intro w hw
    rw [mem_delta_slots, slot?_foldl_erase] at hw
    split at hw
    · cases hw
    · exact h.slots w (mem_delta_slots.2 hw)
  balances := by
    intro b hb
    rw [mem_delta_balances, balance?_foldl_erase] at hb
    split at hb
    · cases hb
    · exact h.balances b (mem_delta_balances.2 hb)

/-! ## Leaves -/

/-- An account in the dump has a slot or a balance that could be encoded, so its address can. -/
theorem Encodable.address (h : l.Encodable) {a : Address} (ha : a ∈ Storage.addresses l) :
    ∃ i, addressItem a = .ok i := by
  have hkeys := List.mem_eraseDups.1 ((Text.sort_perm _).mem_iff.1 ha)
  rcases List.mem_append.1 hkeys with hslot | hbalance
  · obtain ⟨⟨_, slots⟩, he, rfl⟩ := List.mem_map.1 hslot
    obtain ⟨p, hp⟩ := List.exists_mem_of_ne_nil _ (h.within.slots _ he).2
    have hw : ⟨_, p.1, p.2⟩ ∈ l.delta.slots :=
      List.mem_flatMap.2 ⟨_, he, List.mem_map.2 ⟨p, hp, rfl⟩⟩
    obtain ⟨i, hi⟩ := h.slots _ hw
    obtain ⟨j, hj, -⟩ := bind_eq_ok.1 hi
    exact ⟨j, hj⟩
  · obtain ⟨⟨_, n⟩, he, rfl⟩ := List.mem_map.1 hbalance
    obtain ⟨i, hi⟩ := h.balances ⟨_, n⟩ (List.mem_map.2 ⟨_, he, rfl⟩)
    obtain ⟨j, hj, -⟩ := bind_eq_ok.1 hi
    exact ⟨j, hj⟩

theorem Encodable.balance (h : l.Encodable) (a : Address) :
    ∃ i, intItem ((l.balance? a).getD 0) = .ok i := by
  cases hb : l.balance? a with
  | none => exact ⟨_, rfl⟩
  | some n =>
    obtain ⟨i, hi⟩ := h.balances ⟨a, n⟩ (mem_delta_balances.2 hb)
    obtain ⟨_, -, hi⟩ := bind_eq_ok.1 hi
    obtain ⟨j, hj, -⟩ := bind_eq_ok.1 hi
    exact ⟨j, hj⟩

theorem Encodable.value (h : l.Encodable) {a : Address} {e : String × Value}
    (he : e ∈ (Storage.account l a).slots) : ∃ i, valueItem e.2 = .ok i := by
  have hslots := (List.mergeSort_perm ..).mem_iff.1 he
  cases hs : l.slots.get? a with
  | none =>
    rw [hs] at hslots
    cases hslots
  | some slots =>
    rw [hs] at hslots
    have hw : ⟨a, e.1, e.2⟩ ∈ l.delta.slots := List.mem_flatMap.2
      ⟨(a, slots), Table.mem_entries_iff.2 hs, List.mem_map.2 ⟨e, hslots, rfl⟩⟩
    obtain ⟨i, hi⟩ := h.slots _ hw
    obtain ⟨_, -, hi⟩ := bind_eq_ok.1 hi
    obtain ⟨j, hj, -⟩ := bind_eq_ok.1 hi
    exact ⟨j, hj⟩

theorem Encodable.account_fails (h : l.Encodable) {a : Address} (ha : a ∈ Storage.addresses l) :
    FailsOnly Fault.Oversize (Storage.account l a).encode := by
  obtain ⟨address, haddress⟩ := h.address ha
  obtain ⟨balance, hbalance⟩ := h.balance a
  refine (FailsOnly.of_ok haddress).bind fun _ => (FailsOnly.of_ok hbalance).bind fun _ => ?_
  refine (FailsOnly.mapM fun e he => ?_).bind fun _ => packed_fails _
  obtain ⟨value, hvalue⟩ := h.value he
  exact (FailsOnly.of_ok hvalue).bind fun _ => .ok _

end Layer

/-! ## Reachable machines -/

namespace Machine

variable {m m' : Machine} {top : Layer} {terminations : List Address} {events : List Event}

theorem Commits.encodable (commits : m.Commits top terminations events m')
    (h : m.storage.persisted.Encodable) (within : top.Within (fun _ => True) (fun _ => True)) :
    m'.storage.persisted.Encodable := by
  obtain ⟨entry, hentry, -⟩ := commits.journal
  rw [commits.storage]
  exact (h.merge (Layer.encodable_of_entry within hentry)).foldl_erase _

/-- No open layer of a first frame has an empty table of slots. -/
theorem within_of_run {r : Request} {meter : GasMeter} {t : Site} (idle : m.storage.layers = [])
    (direct : r.storageAddress = r.codeAddress)
    (ran : Run (.frame m.environment r) (m.topSite (m.topFrame r meter)) none t)
    (storage : t.world.storage = ⟨m.storage.persisted, [top]⟩) :
    top.Within (fun _ => True) (fun _ => True) := by
  have within : t.world.storage.Within (fun _ => True) (fun _ => True) :=
    ran.within (m.topSite_alive meter direct) (fun _ => ⟨trivial, trivial⟩)
      (fun _ _ => ⟨trivial, trivial⟩) (fun _ _ => trivial) (Storage.Within.of_idle idle).snapshot
  rw [storage] at within
  exact within top List.mem_cons_self

end Machine

open Machine

theorem Operation.encodable_after {m : Machine} (idle : m.storage.layers = [])
    (h : m.storage.persisted.Encodable) (op : Operation) :
    (op.after m).storage.persisted.Encodable := by
  have ends := op.ends idle
  generalize op.succeeds m = b at ends
  generalize op.after m = m' at ends ⊢
  cases ends with
  | failed | undeployed | blockSet => exact h
  | @deployed code args deployer value gas a c registry _ _ _ _ _ _ _ _ ran storage commits =>
    exact commits.encodable h
      (within_of_run (m := { m with registry := registry }) idle rfl ran storage)
  | called ran storage commits => exact commits.encodable h (within_of_run idle rfl ran storage)
  | funded commits => exact commits.encodable h (Layer.Within.empty.setBalance trivial _)
  | terminated _ swept commits =>
    refine commits.encodable h ?_
    rcases swept with rfl | ⟨-, n, rfl⟩
    · exact .empty
    · exact (Layer.Within.empty.setBalance trivial _).setBalance trivial _

namespace Machine

theorem Reachable.encodable {m : Machine} (h : m.Reachable) : m.storage.persisted.Encodable := by
  obtain ⟨settings, hash, ops, rfl⟩ := h
  exact Reachable.perform_keeps (P := fun m => m.storage.persisted.Encodable)
    ⟨settings, hash, [], rfl⟩ Layer.encodable_empty
    fun op _ _ reachable h => op.encodable_after reachable.idle h

/-- The root of a machine that there can be is a text, unless an account is too large. -/
theorem stateRoot_fails {m : Machine} (h : m.Reachable) : FailsOnly Fault.Oversize m.stateRoot := by
  refine FailsOnly.bind (FailsOnly.mapM fun a ha => ?_) fun _ => .ok _
  obtain ⟨address, haddress, rfl⟩ := List.mem_map.1 ha
  exact (h.encodable.account_fails haddress).bind fun _ => .ok _

end Machine

end ContractVM
