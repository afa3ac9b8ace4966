/-
Which accounts code can write to.

A frame writes slots of the address it acts for and balances of that address and
of addresses it names.  So if two properties hold of these addresses, every open
layer keeps to them (`Run.within`): `slot` is what is known of addresses with
slots and `bal` of those with balances.
-/
import ContractVM.Proofs.Exec.Grounded
import ContractVM.Proofs.Table

namespace ContractVM

variable {slot bal : Address → Prop}

/-- The layer has slots, and not an empty table of them, of addresses in `slot` only,
and balances of addresses in `bal` only. -/
structure Layer.Within (slot bal : Address → Prop) (l : Layer) : Prop where
  slots : ∀ e ∈ l.slots.entries, slot e.1 ∧ e.2.entries ≠ []
  balances : ∀ e ∈ l.balances.entries, bal e.1

namespace Layer.Within

variable {l upper : Layer}

theorem empty : Layer.empty.Within slot bal :=
  ⟨fun _ h => (nomatch h), fun _ h => (nomatch h)⟩

theorem setSlot (h : l.Within slot bal) {a : Address} (ha : slot a) (k : String) (v : Value) :
    (l.setSlot a k v).Within slot bal where
  slots := by
    intro e he
    rcases Table.mem_place he with rfl | he
    · exact ⟨ha, Table.place_ne_nil _ _ _⟩
    · exact h.slots e he
  balances := h.balances

theorem setBalance (h : l.Within slot bal) {a : Address} (ha : bal a) (n : Int) :
    (l.setBalance a n).Within slot bal where
  slots := h.slots
  balances := by
    intro e he
    rcases Table.mem_place he with rfl | he
    · exact ha
    · exact h.balances e he

theorem merge (h : l.Within slot bal) (hu : upper.Within slot bal) :
    (l.merge upper).Within slot bal where
  slots := by
    have hslots := hu.slots
    show ∀ e ∈ (upper.slots.entries.foldl Layer.mergeSlots l.slots).entries, _
    generalize upper.slots.entries = entries at hslots ⊢
    have hbase := h.slots
    generalize l.slots = slots at hbase ⊢
    induction entries generalizing slots with
    | nil => exact hbase
    | cons f rest ih =>
      obtain ⟨hf, hfull⟩ := hslots f List.mem_cons_self
      refine ih (fun e he => hslots e (List.mem_cons_of_mem f he)) _ fun e he => ?_
      rcases Table.mem_place he with rfl | he
      · exact ⟨hf, Table.setAll_ne_nil _ hfull⟩
      · exact hbase e he
  balances := by
    have hbalances := hu.balances
    show ∀ e ∈ (l.balances.setAll upper.balances.entries).entries, _
    unfold Table.setAll
    generalize upper.balances.entries = entries at hbalances ⊢
    have hbase := h.balances
    generalize l.balances = balances at hbase ⊢
    induction entries generalizing balances with
    | nil => exact hbase
    | cons f rest ih =>
      refine ih (fun e he => hbalances e (List.mem_cons_of_mem f he)) _ fun e he => ?_
      rcases Table.mem_place he with rfl | he
      · exact hbalances f List.mem_cons_self
      · exact hbase e he

end Layer.Within

namespace Storage

def Within (slot bal : Address → Prop) (s : Storage) : Prop := ∀ l ∈ s.layers, l.Within slot bal

variable {s t : Storage}

theorem Within.of_idle (h : s.layers = []) : s.Within slot bal := by
  intro l hl
  rw [h] at hl
  cases hl

theorem Within.snapshot (h : s.Within slot bal) : s.snapshot.Within slot bal :=
  List.forall_mem_cons.2 ⟨.empty, h⟩

theorem Within.updateTop (h : s.Within slot bal) {f : Layer → Layer}
    (hf : ∀ l : Layer, l.Within slot bal → (f l).Within slot bal) (ht : s.updateTop f = .ok t) :
    t.Within slot bal :=
  forall_updateTop h hf ht

theorem Within.transfer (h : s.Within slot bal) {source target : Address} {amount : Int}
    (hsource : bal source) (htarget : bal target)
    (ht : s.transfer source target amount = .ok t) : t.Within slot bal := by
  rcases transfer_eq_ok ht with ⟨-, rfl⟩ | ⟨-, -, paid, hpaid, ht⟩
  · exact h
  · exact (h.updateTop (fun l hl => hl.setBalance hsource _) hpaid).updateTop
      (fun l hl => hl.setBalance htarget _) ht

theorem Within.commit (h : s.Within slot bal) {d : Option Delta} (ht : s.commit = .ok (d, t)) :
    t.Within slot bal :=
  (forall_commit h (fun _ _ hl hu => hl.merge hu) ht).1

theorem Within.rollback (h : s.Within slot bal) (ht : s.rollback = .ok t) : t.Within slot bal :=
  forall_rollback h ht

end Storage

/-! ## Code -/

/-- A request that moves value moves it between addresses in `bal`. -/
def Place.Pays (bal : Address → Prop) : Place → Prop
  | .frame _ r | .binding _ r | .executing _ r =>
    r.transfers = true → bal r.caller ∧ bal r.storageAddress
  | .body _ => True

theorem Opening.pays {sc : Scope} {s : Site} (o : Opening sc s)
    (live : ∀ a, sc.env.registry.find? a ≠ none → bal a) (h : (Place.body sc).Alive s) :
    (Place.frame sc.env o.request).Pays bal := by
  intro htransfers
  have direct : decide (o.spec.kind = .delegate) = false := by
    simpa [request, Exec.request] using htransfers
  have htarget : sc.env.registry.find? o.target ≠ none := by
    rw [o.found]
    exact fun h => nomatch h
  show bal (if decide (o.spec.kind = .delegate) then s.frame.ctx.sender else s.frame.ctx.self) ∧
    bal (if decide (o.spec.kind = .delegate) then s.frame.ctx.self else o.target)
  rw [direct]
  exact ⟨live _ h, live _ htarget⟩

/-- Code keeps the open layers within the addresses it acts for and those it names. -/
theorem Run.within {p : Place} {s t : Site} {e : Option Fault} (h : Run p s e t)
    (alive : p.Alive s) (pays : p.Pays bal)
    (live : ∀ a, p.env.registry.find? a ≠ none → slot a ∧ bal a)
    (named : ∀ a, Address.isValid a = true → bal a) (hs : s.world.storage.Within slot bal) :
    t.world.storage.Within slot bal := by
  induction h with
  | trans first _ ih ih' =>
    exact ih' (alive.of_same first.same) pays live (ih alive pays live hs)
  | write _ h =>
    exact hs.updateTop (fun l hl => hl.setSlot (live _ alive).1 _ _) (Storage.write_eq_ok h).1
  | destroy _ valid h => exact hs.transfer (live _ alive).2 (named _ valid) h
  | invoke _ _ _ _ ih => exact ih alive pays live hs
  | guarded _ _ _ _ _ ih => exact ih alive pays live hs
  | send valid _ _ h => exact hs.transfer (live _ alive).2 (named _ valid) h
  | committed o h ended ih =>
    -- A callee starts on an empty layer, which its commit merges into one of the caller's.
    have callee := ih (o.alive alive) (o.pays (fun a ha => (live a ha).2) alive) live hs.snapshot
    obtain ⟨d, storage, f, hc, -, rfl, -⟩ := Site.commitTo_eq ended
    exact callee.commit hc
  | passed o h ended ih | caught _ _ o h ended ih =>
    have callee := ih (o.alive alive) (o.pays (fun a ha => (live a ha).2) alive) live hs.snapshot
    obtain ⟨f, g, storage, -, hr, -, -, rfl⟩ := Site.revert_eq ended
    exact callee.rollback hr
  | aborted o h foreign ended ih =>
    have callee := ih (o.alive alive) (o.pays (fun a ha => (live a ha).2) alive) live hs.snapshot
    exact callee.rollback ended
  | pay _ _ transfers h => exact hs.transfer (pays transfers).1 (pays transfers).2 h
  | @start env r s c b sc e t found bound entered h ih =>
    have hsc : sc.env = env := Bound.env_of_mem_scopes entered
    have hself : (Place.body sc).Alive s := by
      show sc.env.registry.find? s.frame.ctx.self ≠ none
      rw [hsc]
      exact alive (by rw [found]; exact fun h => nomatch h)
    exact ih hself trivial (by rw [Place.env, hsc]; exact live) hs
  | refused moved _ ih => exact ih (alive.bind moved) pays live hs
  | failed moved bind admits moved' _ ih ih' | finished moved bind admits moved' _ _ ih ih' =>
    have bound := ih (alive.bind moved) pays live hs
    exact ih' ((alive.bind moved).exec bind admits moved') pays live (admits.storage ▸ bound)
  | _ => exact hs

end ContractVM
