/-
A layer as the writes it received.

`Layer.ofWrites ws` is a single layer that received `ws` in sequence.  Merging it
into another layer is making the writes there (`merge_ofWrites`), order of first
arrival included, so a layer may be merged downwards at any time and in any number
of steps.  The delta of such a layer lists every slot and every balance once, with
the last value written.
-/
import ContractVM.Proofs.Storage.Layer

namespace ContractVM

inductive Write where
  | slot (a : Address) (key : String) (v : Value)
  | balance (a : Address) (n : Int)
deriving Repr, DecidableEq

namespace Write

/-- The value a write gives to one slot. -/
def slot? (a : Address) (key : String) : Write → Option Value
  | slot b k v => if a = b ∧ key = k then some v else none
  | balance .. => none

/-- The amount a write gives to one account. -/
def balance? (a : Address) : Write → Option Int
  | slot .. => none
  | balance b n => if a = b then some n else none

/-- The last value that `ws` give to a slot. -/
def lastSlot? (ws : List Write) (a : Address) (key : String) : Option Value :=
  (ws.filterMap (slot? a key)).getLast?

def lastBalance? (ws : List Write) (a : Address) : Option Int :=
  (ws.filterMap (balance? a)).getLast?

end Write

namespace Layer

def put (l : Layer) : Write → Layer
  | .slot a k v => l.setSlot a k v
  | .balance a n => l.setBalance a n

def ofWrites (ws : List Write) : Layer := ws.foldl put .empty

/-- No address is there without a slot. -/
def Full (l : Layer) : Prop := ∀ e ∈ l.slots.entries, e.2.entries ≠ []

/-! ## Looking up what was written -/

theorem slot?_put (l : Layer) (w : Write) (a : Address) (k : String) :
    (l.put w).slot? a k = (w.slot? a k).or (l.slot? a k) := by
  cases w with
  | slot b j v =>
    rw [put, slot?_setSlot, Write.slot?]
    split <;> rfl
  | balance b n => rfl

theorem balance?_put (l : Layer) (w : Write) (a : Address) :
    (l.put w).balance? a = (w.balance? a).or (l.balance? a) := by
  cases w with
  | slot b j v => rfl
  | balance b n =>
    rw [put, balance?_setBalance, Write.balance?]
    split <;> rfl

/-- If one write hides what was there, a run of writes shows its last one. -/
theorem look_foldl {σ γ : Type} {put : σ → Write → σ} {one : Write → Option γ}
    (look : σ → Option γ) (hput : ∀ s w, look (put s w) = (one w).or (look s))
    (ws : List Write) (s : σ) :
    look (ws.foldl put s) = (ws.filterMap one).getLast?.or (look s) := by
  induction ws generalizing s with
  | nil => rfl
  | cons w rest ih =>
    rw [List.foldl_cons, ih, hput, ← Option.or_assoc]
    congr 1
    cases h : one w with
    | none => rw [List.filterMap_cons_none h, Option.or_none]
    | some v =>
      rw [List.filterMap_cons_some h, List.getLast?_cons]
      cases (rest.filterMap one).getLast? <;> rfl

theorem slot?_ofWrites (ws : List Write) (a : Address) (k : String) :
    (ofWrites ws).slot? a k = Write.lastSlot? ws a k :=
  (look_foldl (·.slot? a k) (fun l w => slot?_put l w a k) ws .empty).trans Option.or_none

theorem balance?_ofWrites (ws : List Write) (a : Address) :
    (ofWrites ws).balance? a = Write.lastBalance? ws a :=
  (look_foldl (·.balance? a) (fun l w => balance?_put l w a) ws .empty).trans Option.or_none

/-! ## Merging is making the writes -/

theorem merge_setSlot (l u : Layer) (a : Address) (k : String) (v : Value) :
    l.merge (u.setSlot a k v) = (l.merge u).setSlot a k v := by
  refine ext_parts ((Table.foldl_join_place joined u.slots.nodup l.slots _).trans ?_) rfl
  show (l.merge u).slots.set a _ = (l.merge u).slots.set a _
  rw [get?_slots_merge, joined, Table.setAll_set]
  cases u.slots.get? a <;> rfl

theorem merge_put (l u : Layer) (w : Write) : l.merge (u.put w) = (l.merge u).put w := by
  cases w with
  | slot a k v => exact merge_setSlot l u a k v
  | balance a n => exact ext_parts rfl (Table.setAll_set ..)

theorem merge_foldl_put (l u : Layer) (ws : List Write) :
    l.merge (ws.foldl put u) = ws.foldl put (l.merge u) := by
  induction ws generalizing u with
  | nil => rfl
  | cons w rest ih => rw [List.foldl_cons, ih, merge_put, List.foldl_cons]

theorem merge_ofWrites (l : Layer) (ws : List Write) : l.merge (ofWrites ws) = ws.foldl put l :=
  merge_foldl_put l .empty ws

/-- Two layers merged are one layer that received the writes of both. -/
theorem ofWrites_append (ws upper : List Write) :
    ofWrites (ws ++ upper) = (ofWrites ws).merge (ofWrites upper) := by
  rw [merge_ofWrites, ofWrites, List.foldl_append]
  rfl

/-! ## Full layers -/

theorem full_empty : Full .empty := fun _ he => nomatch he

theorem Full.put {l : Layer} (h : l.Full) (w : Write) : (l.put w).Full := by
  cases w with
  | slot a k v =>
    intro e he
    rcases Table.mem_place he with rfl | he
    · exact Table.place_ne_nil k v _
    · exact h e he
  | balance a n => exact h

theorem Full.foldl_put {l : Layer} (h : l.Full) (ws : List Write) : (ws.foldl Layer.put l).Full := by
  induction ws generalizing l with
  | nil => exact h
  | cons w rest ih => exact ih (h.put w)

theorem Full.erase {l : Layer} (h : l.Full) (a : Address) : (l.erase a).Full :=
  fun e he => h e (List.mem_filter.1 he).1

/-! ## The delta of a layer -/

theorem mem_delta_balances {l : Layer} {b : BalanceWrite} :
    b ∈ l.delta.balances ↔ l.balance? b.address = some b.balance := by
  obtain ⟨a, n⟩ := b
  unfold delta balance?
  simp only [List.mem_map, BalanceWrite.mk.injEq]
  constructor
  · rintro ⟨⟨a', n'⟩, he, rfl, rfl⟩
    exact Table.mem_entries_iff.1 he
  · exact fun h => ⟨(a, n), Table.mem_entries_iff.2 h, rfl, rfl⟩

theorem nodup_delta_slots (l : Layer) :
    (l.delta.slots.map fun w => (w.address, w.key)).Nodup := by
  unfold delta
  rw [List.map_flatMap, List.Nodup, List.pairwise_flatMap]
  constructor
  · intro e _
    rw [List.map_map, List.pairwise_map]
    have hkeys := e.2.nodup
    rw [List.Nodup, List.pairwise_map] at hkeys
    exact hkeys.imp fun hne h => hne (congrArg Prod.snd h)
  · have haddresses := l.slots.nodup
    rw [List.Nodup, List.pairwise_map] at haddresses
    refine haddresses.imp fun hne x hx y hy h => hne ?_
    simp only [List.map_map, List.mem_map, Function.comp_apply] at hx hy
    obtain ⟨_, -, rfl⟩ := hx
    obtain ⟨_, -, rfl⟩ := hy
    exact congrArg (·.1) h

theorem nodup_delta_balances (l : Layer) : (l.delta.balances.map (·.address)).Nodup := by
  unfold delta
  rw [List.map_map]
  exact l.balances.nodup

/-- The writes that a delta stands for: slots before balances. -/
theorem apply_eq_foldl_put (l : Layer) (d : Delta) :
    l.apply d = d.destroyed.foldl erase
      ((d.slots.map (fun w => Write.slot w.address w.key w.value) ++
        d.balances.map fun b => Write.balance b.address b.balance).foldl put l) := by
  unfold apply
  rw [List.foldl_append, List.foldl_map, List.foldl_map]
  rfl

end Layer
end ContractVM
