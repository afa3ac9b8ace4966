/-
Layers and the deltas that stand for them.

Writing the delta of a layer over another layer is merging the two
(`apply_delta`), so a journal that holds deltas can rebuild what merging made.
Writes to an account that the delta destroys make no difference, and that is why
it does not matter that their texts may come back changed (`apply_reread`).
-/
import ContractVM.Proofs.Journal.Codec
import ContractVM.Proofs.Table

namespace ContractVM
namespace Layer

variable {l : Layer} {a b : Address} {k : String}

theorem ext_parts {l l' : Layer} (hs : l.slots = l'.slots) (hb : l.balances = l'.balances) :
    l = l' := by
  cases l
  cases l'
  cases hs
  cases hb
  rfl

/-! ## Lookups -/

theorem mem_delta_slots {w : SlotWrite} :
    w ∈ l.delta.slots ↔ l.slot? w.address w.key = some w.value := by
  obtain ⟨a, k, v⟩ := w
  unfold delta slot?
  simp only [List.mem_flatMap, List.mem_map, SlotWrite.mk.injEq]
  constructor
  · rintro ⟨⟨a', slots⟩, he, ⟨k', v'⟩, hw, rfl, rfl, rfl⟩
    rw [Table.mem_entries_iff.1 he]
    exact Table.mem_entries_iff.1 hw
  · intro h
    obtain ⟨slots, hslots, hv⟩ := Option.bind_eq_some_iff.1 h
    exact ⟨(a, slots), Table.mem_entries_iff.2 hslots, (k, v), Table.mem_entries_iff.2 hv,
      rfl, rfl, rfl⟩

/-- The slots of one address over those it has below. -/
def joined (below : Option (Table Value)) (above : Table Value) : Table Value :=
  (below.getD ∅).setAll above.entries

theorem get?_slots_merge (lower upper : Layer) (a : Address) :
    (lower.merge upper).slots.get? a =
      ((upper.slots.get? a).map (joined (lower.slots.get? a))).or (lower.slots.get? a) :=
  Table.get?_foldl_join joined upper.slots.nodup lower.slots a

/-- The upper layer hides what the lower one holds for the same key. -/
theorem slot?_merge (lower upper : Layer) (a : Address) (k : String) :
    (lower.merge upper).slot? a k = (upper.slot? a k).or (lower.slot? a k) := by
  unfold slot?
  rw [get?_slots_merge]
  cases upper.slots.get? a with
  | none => rfl
  | some above =>
    show (joined (lower.slots.get? a) above).get? k = _
    rw [joined, Table.get?_setAll _ above.nodup]
    cases lower.slots.get? a <;> rfl

theorem balance?_merge (lower upper : Layer) (a : Address) :
    (lower.merge upper).balance? a = (upper.balance? a).or (lower.balance? a) :=
  Table.get?_setAll lower.balances upper.balances.nodup a

theorem slot?_foldl_erase (l : List Address) (layer : Layer) (a : Address) (key : String) :
    (l.foldl erase layer).slot? a key = if a ∈ l then none else layer.slot? a key :=
  Table.foldl_drop (·.slot? a key) (fun _ _ => slot?_erase ..) l layer

theorem balance?_foldl_erase (l : List Address) (layer : Layer) (a : Address) :
    (l.foldl erase layer).balance? a = if a ∈ l then none else layer.balance? a :=
  Table.foldl_drop (·.balance? a) (fun _ _ => balance?_erase ..) l layer

/-! ## Merging is writing the delta -/

theorem foldl_setSlot_set (entries : List (String × Value)) (l : Layer) (slots : Table Value) :
    (entries.map fun w => SlotWrite.mk a w.1 w.2).foldl (fun l w => l.setSlot w.address w.key w.value)
      { l with slots := l.slots.set a slots } =
        { l with slots := l.slots.set a (slots.setAll entries) } := by
  induction entries generalizing slots with
  | nil => rfl
  | cons w rest ih =>
    have hwrite : Layer.setSlot { l with slots := l.slots.set a slots } a w.1 w.2 =
        { l with slots := l.slots.set a (slots.set w.1 w.2) } := by
      unfold setSlot
      simp only [Table.get?_set_self, Option.getD_some, Table.set_set]
    rw [List.map_cons, List.foldl_cons]
    simp only
    rw [hwrite]
    exact ih _

theorem foldl_setSlot (l : Layer) {entries : List (String × Value)} (h : entries ≠ []) :
    (entries.map fun w => SlotWrite.mk a w.1 w.2).foldl (fun l w => l.setSlot w.address w.key w.value)
      l = { l with slots := l.slots.set a (((l.slots.get? a).getD ∅).setAll entries) } := by
  cases entries with
  | nil => exact absurd rfl h
  | cons w rest => exact foldl_setSlot_set rest l _

theorem foldl_setSlot_flatMap {entries : List (String × Table Value)}
    (full : ∀ e ∈ entries, e.2.entries ≠ []) (l : Layer) :
    (entries.flatMap fun e => e.2.entries.map fun w => SlotWrite.mk e.1 w.1 w.2).foldl
      (fun l w => l.setSlot w.address w.key w.value) l =
        { l with slots := entries.foldl mergeSlots l.slots } := by
  induction entries generalizing l with
  | nil => rfl
  | cons e rest ih =>
    rw [List.flatMap_cons, List.foldl_append, foldl_setSlot l (full e List.mem_cons_self),
      ih fun f hf => full f (List.mem_cons_of_mem e hf)]
    rfl

theorem foldl_setBalance (entries : List (String × Int)) (l : Layer) :
    (entries.map fun e => BalanceWrite.mk e.1 e.2).foldl (fun l b => l.setBalance b.address b.balance)
      l = { l with balances := l.balances.setAll entries } := by
  induction entries generalizing l with
  | nil => rfl
  | cons e rest ih =>
    rw [List.map_cons, List.foldl_cons, ih]
    rfl

/-- Writing the delta of a layer merges the layer, and then destroys accounts. -/
theorem apply_delta (lower top : Layer) (full : ∀ e ∈ top.slots.entries, e.2.entries ≠ [])
    (destroyed : List Address) :
    lower.apply { top.delta with destroyed := destroyed } =
      destroyed.foldl erase (lower.merge top) := by
  have hslots := foldl_setSlot_flatMap full lower
  have hbalances := foldl_setBalance top.balances.entries
    { lower with slots := top.slots.entries.foldl mergeSlots lower.slots }
  unfold apply delta
  simp only
  rw [hslots, hbalances]
  rfl

/-! ## Destroying an account that was written -/

theorem erase_setSlot_self (l : Layer) (a : Address) (k : String) (v : Value) :
    (l.setSlot a k v).erase a = l.erase a :=
  ext_parts (Table.erase_set_self ..) rfl

theorem erase_setSlot_of_ne (l : Layer) (k : String) (v : Value) (h : a ≠ b) :
    (l.setSlot a k v).erase b = (l.erase b).setSlot a k v := by
  refine ext_parts ?_ rfl
  show (l.slots.set a _).erase b = (l.slots.erase b).set a ((((l.slots.erase b).get? a).getD ∅).set k v)
  rw [Table.erase_set_of_ne _ _ h, Table.get?_erase, if_neg h]

theorem erase_setBalance_self (l : Layer) (a : Address) (n : Int) :
    (l.setBalance a n).erase a = l.erase a :=
  ext_parts rfl (Table.erase_set_self ..)

theorem erase_setBalance_of_ne (l : Layer) (n : Int) (h : a ≠ b) :
    (l.setBalance a n).erase b = (l.erase b).setBalance a n :=
  ext_parts rfl (Table.erase_set_of_ne _ _ h)

/-- Among accounts destroyed in turn, only a write to another one is left. -/
theorem foldl_erase_write {a : Address} (write : Layer → Layer)
    (same : ∀ l, (write l).erase a = l.erase a)
    (other : ∀ l b, a ≠ b → (write l).erase b = write (l.erase b)) (destroyed : List Address)
    (l : Layer) : destroyed.foldl erase (write l) =
      if a ∈ destroyed then destroyed.foldl erase l else write (destroyed.foldl erase l) := by
  induction destroyed generalizing l with
  | nil => rfl
  | cons b rest ih =>
    rw [List.foldl_cons, List.foldl_cons]
    by_cases hb : a = b
    · subst hb
      rw [same, if_pos List.mem_cons_self]
    · rw [other l b hb, ih]
      simp only [List.mem_cons, hb, false_or]

/-- The writes that are left once accounts were destroyed. -/
theorem foldl_erase_writes {ω : Type} {address : ω → Address} {write : Layer → ω → Layer}
    (same : ∀ l w, (write l w).erase (address w) = l.erase (address w))
    (other : ∀ l w b, address w ≠ b → (write l w).erase b = write (l.erase b) w)
    (destroyed : List Address) (ws : List ω) (l : Layer) :
    destroyed.foldl erase (ws.foldl write l) =
      (ws.filter fun w => address w ∉ destroyed).foldl write (destroyed.foldl erase l) := by
  induction ws generalizing l with
  | nil => rfl
  | cons w rest ih =>
    rw [List.foldl_cons, ih, foldl_erase_write (fun l => write l w) (fun l => same l w)
      (fun l b => other l w b)]
    by_cases hw : address w ∈ destroyed
    · rw [if_pos hw, List.filter_cons_of_neg (by simpa using hw)]
    · rw [if_neg hw, List.filter_cons_of_pos (by simpa using hw), List.foldl_cons]

theorem foldl_erase_slots (destroyed : List Address) (ws : List SlotWrite) (l : Layer) :
    destroyed.foldl erase (ws.foldl (fun l w => l.setSlot w.address w.key w.value) l) =
      (ws.filter fun w => w.address ∉ destroyed).foldl
        (fun l w => l.setSlot w.address w.key w.value) (destroyed.foldl erase l) :=
  foldl_erase_writes (fun l w => erase_setSlot_self l w.address w.key w.value)
    (fun l w _ h => erase_setSlot_of_ne l w.key w.value h) destroyed ws l

theorem foldl_erase_balances (destroyed : List Address) (bs : List BalanceWrite) (l : Layer) :
    destroyed.foldl erase (bs.foldl (fun l b => l.setBalance b.address b.balance) l) =
      (bs.filter fun b => b.address ∉ destroyed).foldl
        (fun l b => l.setBalance b.address b.balance) (destroyed.foldl erase l) :=
  foldl_erase_writes (fun l b => erase_setBalance_self l b.address b.balance)
    (fun l b _ h => erase_setBalance_of_ne l b.balance h) destroyed bs l

/-- A delta that was read back writes what the original does, if it kept the texts
of the accounts that survive it. -/
theorem apply_reread {d : Delta} (kept : ∀ w ∈ d.slots, w.address ∉ d.destroyed → w.reread = w)
    (l : Layer) : l.apply d.reread = l.apply d := by
  have hfilter : (d.slots.map SlotWrite.reread).filter (fun w => w.address ∉ d.destroyed) =
      d.slots.filter fun w => w.address ∉ d.destroyed := by
    rw [List.filter_map]
    show (d.slots.filter fun w => w.address ∉ d.destroyed).map SlotWrite.reread = _
    have hsame : ∀ w ∈ d.slots.filter fun w => w.address ∉ d.destroyed, w.reread = id w :=
      fun w hw => kept w (List.mem_filter.1 hw).1 (of_decide_eq_true (List.mem_filter.1 hw).2)
    rw [List.map_congr_left hsame, List.map_id]
  unfold apply
  simp only [Delta.reread]
  rw [foldl_erase_balances, foldl_erase_balances, foldl_erase_slots, foldl_erase_slots, hfilter]

end Layer
end ContractVM
