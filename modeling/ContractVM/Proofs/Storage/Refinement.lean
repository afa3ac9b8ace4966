/-
Layers against complete copies.

A stack of layers answers every request as the stack of complete copies does
(`layers_refine_copies`).  The two are related by `Mirrors`: the persisted layer
holds what the bottom copy holds, and every open layer is one that received the
surviving writes of its level, while the copy of that level made them on the copy
below.  One request keeps the relation and is answered alike (`Mirrors.step`), and so
is a run of requests (`Mirrors.trace`).
-/
import ContractVM.Proofs.Storage.Copies
import ContractVM.Proofs.Text.Units

namespace ContractVM

/-! ## A copy and a layer that hold the same -/

namespace Copy

theorem slot?_put (c : Copy) (w : Write) (a : Address) (k : String) :
    (c.put w).slot? a k = (w.slot? a k).or (c.slot? a k) := by
  cases w with
  | slot b j v =>
    show (((b, j), v) :: c.slots).lookup (a, k) = _
    rw [Table.lookup_entry, Write.slot?]
    by_cases h : a = b ∧ k = j
    · rw [if_pos h, if_pos (by rw [h.1, h.2])]
      rfl
    · rw [if_neg h, if_neg fun he => h (Prod.mk.inj he)]
      rfl
  | balance b n => rfl

theorem balance?_put (c : Copy) (w : Write) (a : Address) :
    (c.put w).balance? a = (w.balance? a).or (c.balance? a) := by
  cases w with
  | slot b j v => rfl
  | balance b n =>
    show ((b, n) :: c.balances).lookup a = _
    rw [Table.lookup_entry, Write.balance?]
    split <;> rfl

theorem slot?_erase (c : Copy) (a b : Address) (k : String) :
    (c.erase a).slot? b k = if b = a then none else c.slot? b k := by
  refine (Table.lookup_filter (fun i : Address × String => i.1 ≠ a) (b, k) c.slots).trans ?_
  by_cases h : b = a
  · rw [if_pos h, if_neg (by simp [h])]
  · rw [if_neg h, if_pos (by simp [h])]
    rfl

theorem balance?_erase (c : Copy) (a b : Address) :
    (c.erase a).balance? b = if b = a then none else c.balance? b := by
  refine (Table.lookup_filter (fun i : Address => i ≠ a) b c.balances).trans ?_
  by_cases h : b = a
  · rw [if_pos h, if_neg (by simp [h])]
  · rw [if_neg h, if_pos (by simp [h])]
    rfl

structure Holds (c : Copy) (l : Layer) : Prop where
  slot : ∀ a k, c.slot? a k = l.slot? a k
  balance : ∀ a, c.balance? a = l.balance? a

namespace Holds

variable {c : Copy} {l : Layer}

theorem put (h : c.Holds l) (w : Write) : (c.put w).Holds (l.put w) where
  slot a k := by rw [slot?_put, Layer.slot?_put, h.slot]
  balance a := by rw [balance?_put, Layer.balance?_put, h.balance]

theorem foldl_put (h : c.Holds l) (ws : List Write) :
    (ws.foldl Copy.put c).Holds (ws.foldl Layer.put l) := by
  induction ws generalizing c l with
  | nil => exact h
  | cons w rest ih => exact ih (h.put w)

theorem erase (h : c.Holds l) (a : Address) : (c.erase a).Holds (l.erase a) where
  slot b k := by rw [slot?_erase, Layer.slot?_erase, h.slot]
  balance b := by rw [balance?_erase, Layer.balance?_erase, h.balance]

theorem foldl_erase (h : c.Holds l) (as : List Address) :
    (as.foldl Copy.erase c).Holds (as.foldl Layer.erase l) := by
  induction as generalizing c l with
  | nil => exact h
  | cons a rest ih => exact ih (h.erase a)

theorem apply (h : c.Holds l) (d : Delta) : (c.apply d).Holds (l.apply d) := by
  rw [Layer.apply_eq_foldl_put]
  exact (h.foldl_put _).foldl_erase _

end Holds

/-! ### The canonical order

Neither the order of the writes nor what was written over shows in a dump. -/

theorem mem_keys {c : Copy} {a : Address} {k : String} : k ∈ c.keys a ↔ c.slot? a k ≠ none := by
  unfold keys slot?
  rw [(Text.sort_perm _).mem_iff, List.mem_eraseDups, Ne, Table.lookup_eq_none_iff,
    Classical.not_not]
  simp only [List.mem_map, List.mem_filter, decide_eq_true_eq]
  constructor
  · rintro ⟨e, ⟨he, rfl⟩, rfl⟩
    exact ⟨e, he, rfl⟩
  · rintro ⟨e, he, hek⟩
    exact ⟨e, ⟨he, congrArg Prod.fst hek⟩, congrArg Prod.snd hek⟩

theorem nodup_keys (c : Copy) (a : Address) : (c.keys a).Nodup :=
  (Text.sort_perm _).nodup_iff.2 (Text.nodup_eraseDups _)

theorem mem_slots_map {c : Copy} {a : Address} :
    a ∈ c.slots.map (·.1.1) ↔ ∃ k, c.slot? a k ≠ none := by
  unfold slot?
  simp only [Ne, Table.lookup_eq_none_iff, Classical.not_not, List.mem_map]
  constructor
  · rintro ⟨e, he, rfl⟩
    exact ⟨e.1.2, e, he, rfl⟩
  · rintro ⟨k, e, he, hek⟩
    exact ⟨e, he, congrArg Prod.fst hek⟩

theorem mem_balances_map {c : Copy} {a : Address} :
    a ∈ c.balances.map (·.1) ↔ c.balance? a ≠ none := by
  unfold balance?
  rw [Ne, Table.lookup_eq_none_iff, Classical.not_not]

end Copy

theorem Layer.Full.mem_keys_iff {l : Layer} (full : l.Full) {a : Address} :
    a ∈ l.slots.keys ↔ ∃ k, l.slot? a k ≠ none := by
  rw [Table.mem_keys_iff]
  constructor
  · rintro ⟨slots, hget⟩
    obtain ⟨e, he⟩ := List.exists_mem_of_ne_nil _ (full _ (Table.mem_entries_iff.2 hget))
    refine ⟨e.1, ?_⟩
    rw [Layer.slot?, hget, Option.bind_some, Table.mem_entries_iff.1 he]
    exact Option.some_ne_none _
  · rintro ⟨k, hk⟩
    cases hget : l.slots.get? a with
    | none => exact absurd (by rw [Layer.slot?, hget, Option.bind_none]) hk
    | some slots => exact ⟨slots, rfl⟩

namespace Copy.Holds

variable {c : Copy} {l : Layer}

theorem addresses (h : c.Holds l) (full : l.Full) : Storage.addresses l = c.addresses := by
  refine Text.sort_eraseDups_congr fun a => ?_
  rw [List.mem_append, List.mem_append, full.mem_keys_iff, mem_slots_map, mem_balances_map,
    Table.mem_keys_iff, h.balance]
  simp only [h.slot]
  refine or_congr Iff.rfl ?_
  rw [← Option.isSome_iff_exists, Option.isSome_iff_ne_none]
  rfl

theorem account (h : c.Holds l) (a : Address) : Storage.account l a = c.account a := by
  have hslots : Storage.sortEntries ((l.slots.get? a).getD ∅).entries =
      (c.keys a).map fun k => (k, (c.slot? a k).getD (.int 0)) := by
    have hperm := List.mergeSort_perm ((l.slots.get? a).getD ∅).entries
      fun e f => Text.le e.1 f.1
    have hnames : ((c.keys a).map fun k => (k, (c.slot? a k).getD (.int 0))).map Prod.fst =
        c.keys a := by
      rw [List.map_map]
      exact List.map_id _
    refine Text.eq_of_sorted_of_mem_iff Prod.fst ?_ ?_ ?_ ?_ ?_
    · exact (hperm.map Prod.fst).nodup_iff.2 (Table.nodup _)
    · rw [hnames]
      exact c.nodup_keys a
    · exact Text.pairwise_mergeSort_le Prod.fst _
    · rw [List.pairwise_map]
      exact Text.pairwise_sort _
    · rintro ⟨k, v⟩
      have hget : (((l.slots.get? a).getD ∅).get? k) = l.slot? a k := by
        unfold Layer.slot?
        cases l.slots.get? a <;> rfl
      rw [Storage.sortEntries, hperm.mem_iff, Table.mem_entries_iff, hget, ← h.slot]
      simp only [List.mem_map, mem_keys, Prod.mk.injEq]
      constructor
      · intro hv
        exact ⟨k, by rw [hv]; exact Option.some_ne_none v, rfl, by rw [hv]; rfl⟩
      · rintro ⟨k, hk, rfl, rfl⟩
        obtain ⟨v, hv⟩ := Option.ne_none_iff_exists'.1 hk
        rw [hv]
        rfl
  unfold Storage.account Copy.account
  rw [hslots, h.balance]

end Copy.Holds

/-! ## Two results that are alike -/

/-- Both fail with the same fault, or both give results that `R` relates. -/
inductive Alike {ε σ τ : Type} (R : σ → τ → Prop) : Except ε σ → Except ε τ → Prop
  | ok {s : σ} {t : τ} (h : R s t) : Alike R (.ok s) (.ok t)
  | error (e : ε) : Alike R (.error e) (.error e)

namespace Alike

variable {ε ε' σ τ σ' τ' : Type} {R : σ → τ → Prop} {R' : σ' → τ' → Prop}
  {r : Except ε σ} {q : Except ε τ}

theorem map {f : σ → σ'} {g : τ → τ'} (h : Alike R r q) (hR : ∀ s t, R s t → R' (f s) (g t)) :
    Alike R' (r.map f) (q.map g) := by
  cases h with
  | ok h => exact .ok (hR _ _ h)
  | error e => exact .error e

theorem mapError (f : ε → ε') (h : Alike R r q) : Alike R (r.mapError f) (q.mapError f) := by
  cases h with
  | ok h => exact .ok h
  | error e => exact .error (f e)

end Alike

/-! ## The relation -/

/-- Layers and copies opened on `bottom`, level by level. -/
inductive Stacked (bottom : Copy) : List Layer → List Opened → Prop
  | nil : Stacked bottom [] []
  | cons {ls : List Layer} {os : List Opened} (h : Stacked bottom ls os) (ws : List Write) :
    Stacked bottom (Layer.ofWrites ws :: ls) (⟨ws.foldl Copy.put (Copies.topOf bottom os), ws⟩ :: os)

namespace Stacked

variable {bottom : Copy} {p : Layer} {ls : List Layer} {os : List Opened}

theorem length (h : Stacked bottom ls os) : ls.length = os.length := by
  induction h with
  | nil => rfl
  | cons _ ws ih => rw [List.length_cons, List.length_cons, ih]

theorem drop (h : Stacked bottom ls os) (n : Nat) : Stacked bottom (ls.drop n) (os.drop n) := by
  induction h generalizing n with
  | nil => rw [List.drop_nil, List.drop_nil]; exact .nil
  | cons h ws ih =>
    cases n with
    | zero => exact .cons h ws
    | succ n => exact ih n

/-- The first layer that holds a slot holds what the topmost copy does. -/
theorem slot? (h : Stacked bottom ls os) (holds : bottom.Holds p) (a : Address) (k : String) :
    (ls ++ [p]).findSome? (·.slot? a k) = (Copies.topOf bottom os).slot? a k := by
  induction h with
  | nil =>
    show ([p].findSome? (·.slot? a k)) = bottom.slot? a k
    rw [List.findSome?_singleton, holds.slot]
  | cons _ ws ih =>
    show _ = (ws.foldl Copy.put _).slot? a k
    rw [Layer.look_foldl (·.slot? a k) (fun c w => Copy.slot?_put c w a k), ← ih,
      List.cons_append, List.findSome?_cons, Layer.slot?_ofWrites, Write.lastSlot?]
    cases (ws.filterMap (Write.slot? a k)).getLast? <;> rfl

theorem balance? (h : Stacked bottom ls os) (holds : bottom.Holds p) (a : Address) :
    (ls ++ [p]).findSome? (·.balance? a) = (Copies.topOf bottom os).balance? a := by
  induction h with
  | nil =>
    show ([p].findSome? (·.balance? a)) = bottom.balance? a
    rw [List.findSome?_singleton, holds.balance]
  | cons _ ws ih =>
    show _ = (ws.foldl Copy.put _).balance? a
    rw [Layer.look_foldl (·.balance? a) (fun c w => Copy.balance?_put c w a), ← ih,
      List.cons_append, List.findSome?_cons, Layer.balance?_ofWrites, Write.lastBalance?]
    cases (ws.filterMap (Write.balance? a)).getLast? <;> rfl

end Stacked

/-- The layered storage `s` and the copies `c` stand for the same storage. -/
structure Mirrors (s : Storage) (c : Copies) : Prop where
  holds : c.bottom.Holds s.persisted
  full : s.persisted.Full
  stacked : Stacked c.bottom s.layers c.opened

/-- Whatever can be read shows the same. -/
structure ShowsSame (s : Storage) (c : Copies) : Prop where
  depth : s.depth = c.depth
  peek : ∀ a k, s.peek? a k = c.peek? a k
  has : ∀ a k, s.has a k = c.has a k
  read : ∀ a k, s.read a k = c.read a k
  readPersisted : ∀ a k, s.readPersisted a k = c.readPersisted a k
  balanceOf : ∀ a, s.balanceOf a = c.balanceOf a
  dump : s.dump = c.dump

namespace Mirrors

variable {s : Storage} {c : Copies}

theorem empty : Mirrors .empty .empty := ⟨⟨fun _ _ => rfl, fun _ => rfl⟩, Layer.full_empty, .nil⟩

theorem shows (h : Mirrors s c) : ShowsSame s c := by
  have hpeek : ∀ a k, s.peek? a k = c.peek? a k := h.stacked.slot? h.holds
  have hhas : ∀ a k, s.has a k = c.has a k := fun a k => congrArg Option.isSome (hpeek a k)
  refine ⟨h.stacked.length, hpeek, hhas, fun a k => ?_, fun a k => ?_, fun a => ?_, ?_⟩
  · exact congrArg (·.getD (.int 0)) (hpeek a k)
  · exact congrArg (·.getD (.int 0)) (h.holds.slot a k).symm
  · exact congrArg (·.getD 0) (h.stacked.balance? h.holds a)
  · show (Storage.addresses s.persisted).map _ = c.bottom.addresses.map c.bottom.account
    rw [h.holds.addresses h.full]
    exact List.map_congr_left fun a _ => h.holds.account a

/-! ### One request -/

theorem put (h : Mirrors s c) (w : Write) : Alike Mirrors (s.updateTop (·.put w)) (c.put w) := by
  obtain ⟨p, ls⟩ := s
  obtain ⟨b, os⟩ := c
  obtain ⟨holds, full, (stacked : Stacked b ls os)⟩ := h
  cases stacked with
  | nil => exact .error _
  | @cons ls os stacked ws =>
    refine .ok ⟨holds, full, ?_⟩
    have hcons := Stacked.cons stacked (ws ++ [w])
    rwa [Layer.ofWrites, List.foldl_append, List.foldl_append] at hcons

theorem write (h : Mirrors s c) (a : Address) (k : String) (v : Value) (m : GasMeter) :
    Alike (fun x y => x.1 = y.1 ∧ Mirrors x.2.1 y.2.1 ∧ x.2.2 = y.2.2)
      (s.write a k v m) (c.write a k v m) := by
  have hclass : s.classify a k = c.classify a k := by
    unfold Storage.classify Copies.classify
    rw [h.shows.has]
  have hput := h.put (.slot a k v)
  unfold Storage.write Copies.write
  rw [hclass]
  simp only [Layer.put] at hput
  generalize s.updateTop (·.setSlot a k v) = r at hput ⊢
  generalize c.put (.slot a k v) = q at hput ⊢
  cases hput with
  | error e => exact .error _
  | ok ht =>
    simp only
    cases m.charge (c.classify a k).fee with
    | error cause => exact .error _
    | ok m' => exact .ok ⟨rfl, ht, rfl⟩

theorem setBalance (h : Mirrors s c) (a : Address) (n : Int) :
    Alike Mirrors (s.setBalance a n) (c.setBalance a n) := h.put (.balance a n)

theorem transfer (h : Mirrors s c) (source target : Address) (amount : Int) :
    Alike Mirrors (s.transfer source target amount) (c.transfer source target amount) := by
  unfold Storage.transfer Copies.transfer
  rw [h.shows.balanceOf]
  by_cases hneg : amount < 0
  · rw [if_pos hneg, if_pos hneg]
    exact .error _
  rw [if_neg hneg, if_neg hneg]
  by_cases hzero : amount = 0
  · rw [if_pos hzero, if_pos hzero]
    exact .ok h
  rw [if_neg hzero, if_neg hzero]
  by_cases hlow : c.balanceOf source < amount
  · rw [if_pos hlow, if_pos hlow]
    exact .error _
  rw [if_neg hlow, if_neg hlow]
  have hpay := h.setBalance source (c.balanceOf source - amount)
  generalize s.setBalance source _ = r at hpay ⊢
  generalize c.setBalance source _ = q at hpay ⊢
  cases hpay with
  | error e => exact .error _
  | @ok t d ht =>
    simp only
    rw [ht.shows.balanceOf]
    have htake := ht.setBalance target (d.balanceOf target + amount)
    generalize t.setBalance target _ = r at htake ⊢
    generalize d.setBalance target _ = q at htake ⊢
    cases htake with
    | error e => exact .error _
    | ok hu => exact .ok hu

theorem snapshot (h : Mirrors s c) : Mirrors s.snapshot c.snapshot :=
  ⟨h.holds, h.full, .cons h.stacked []⟩

theorem commit (h : Mirrors s c) :
    Alike (fun x y => x.1 = y.1 ∧ Mirrors x.2 y.2) s.commit c.commit := by
  obtain ⟨p, ls⟩ := s
  obtain ⟨b, os⟩ := c
  obtain ⟨holds, full, (stacked : Stacked b ls os)⟩ := h
  cases stacked with
  | nil => exact .error _
  | cons stacked ws =>
    cases stacked with
    | nil =>
      refine .ok ⟨rfl, ?_, ?_, .nil⟩
      · show (ws.foldl Copy.put b).Holds (p.merge (Layer.ofWrites ws))
        rw [Layer.merge_ofWrites]
        exact holds.foldl_put ws
      · show (p.merge (Layer.ofWrites ws)).Full
        rw [Layer.merge_ofWrites]
        exact full.foldl_put ws
    | cons stacked next =>
      refine .ok ⟨rfl, holds, full, ?_⟩
      have hcons := Stacked.cons stacked (next ++ ws)
      rwa [Layer.ofWrites_append, List.foldl_append] at hcons

theorem rollback (h : Mirrors s c) : Alike Mirrors s.rollback c.rollback := by
  obtain ⟨p, ls⟩ := s
  obtain ⟨b, os⟩ := c
  obtain ⟨holds, full, (stacked : Stacked b ls os)⟩ := h
  cases stacked with
  | nil => exact .error _
  | cons stacked ws => exact .ok ⟨holds, full, stacked⟩

theorem rollbackTo (h : Mirrors s c) (depth : Number) :
    Alike Mirrors (s.rollbackTo depth) (c.rollbackTo depth) := by
  unfold Storage.rollbackTo Copies.rollbackTo
  rw [h.shows.depth]
  split
  · exact .error _
  · cases depth.toInt? with
    | none => exact .error _
    | some d => exact .ok ⟨h.holds, h.full, h.stacked.drop _⟩

theorem whenIdle (h : Mirrors s c) (operation : String) {f : Layer → Layer} {g : Copy → Copy}
    (holds : (g c.bottom).Holds (f s.persisted)) (full : (f s.persisted).Full) :
    Alike Mirrors (s.whenIdle operation f) (c.whenIdle operation g) := by
  obtain ⟨p, ls⟩ := s
  obtain ⟨b, os⟩ := c
  have stacked : Stacked b ls os := h.stacked
  cases stacked with
  | nil => exact .ok ⟨holds, full, .nil⟩
  | cons stacked ws => exact .error _

theorem destroy (h : Mirrors s c) (a : Address) : Alike Mirrors (s.destroy a) (c.destroy a) :=
  h.whenIdle "destroy" (h.holds.erase a) (h.full.erase a)

theorem apply (h : Mirrors s c) (d : Delta) : Alike Mirrors (s.apply d) (c.apply d) := by
  refine h.whenIdle "apply" (h.holds.apply d) ?_
  rw [Layer.apply_eq_foldl_put]
  generalize d.destroyed = as
  have hfull := h.full.foldl_put (d.slots.map (fun w => Write.slot w.address w.key w.value) ++
    d.balances.map fun b => Write.balance b.address b.balance)
  generalize List.foldl Layer.put _ _ = l at hfull ⊢
  induction as generalizing l with
  | nil => exact hfull
  | cons a rest ih => exact ih _ (hfull.erase a)

/-- One request is answered alike and keeps the relation. -/
theorem step (h : Mirrors s c) (op : StorageOp) :
    Alike (fun x y => x.1 = y.1 ∧ Mirrors x.2 y.2) (op.onLayers s) (op.onCopies c) := by
  have hdone : ∀ {r : Except Fault Storage} {q : Except Fault Copies}, Alike Mirrors r q →
      Alike (fun x y => x.1 = y.1 ∧ Mirrors x.2 y.2) (StorageOp.done r) (StorageOp.done q) :=
    fun hr => hr.map fun _ _ ht => ⟨rfl, ht⟩
  cases op with
  | snapshot => exact .ok ⟨congrArg StorageAnswer.depth h.snapshot.shows.depth, h.snapshot⟩
  | commit =>
    refine (h.commit.mapError Fault.misuse).map ?_
    rintro ⟨d, t⟩ ⟨_, c'⟩ ⟨rfl, ht⟩
    exact ⟨rfl, ht⟩
  | rollback => exact hdone (h.rollback.mapError Fault.misuse)
  | rollbackTo depth => exact hdone (h.rollbackTo depth)
  | write a k v m =>
    refine (h.write a k v m).map ?_
    rintro ⟨cls, t, m'⟩ ⟨_, d, _⟩ ⟨rfl, ht, rfl⟩
    exact ⟨rfl, ht⟩
  | setBalance a n => exact hdone ((h.setBalance a n).mapError Fault.misuse)
  | transfer source target amount => exact hdone (h.transfer source target amount)
  | destroy a => exact hdone ((h.destroy a).mapError Fault.misuse)
  | apply d => exact hdone ((h.apply d).mapError Fault.misuse)

/-! ### A run of requests -/

theorem trace (h : Mirrors s c) (ops : List StorageOp) :
    (StorageOp.trace StorageOp.onLayers s ops).1 = (StorageOp.trace StorageOp.onCopies c ops).1 ∧
      Mirrors (StorageOp.trace StorageOp.onLayers s ops).2
        (StorageOp.trace StorageOp.onCopies c ops).2 := by
  induction ops generalizing s c with
  | nil => exact ⟨rfl, h⟩
  | cons op rest ih =>
    have hstep := h.step op
    unfold StorageOp.trace
    generalize StorageOp.onLayers s op = r at hstep ⊢
    generalize StorageOp.onCopies c op = q at hstep ⊢
    cases hstep with
    | error f => exact ⟨congrArg (.error f :: ·) (ih h).1, (ih h).2⟩
    | @ok x y hxy =>
      obtain ⟨answer, t⟩ := x
      obtain ⟨_, d⟩ := y
      obtain ⟨rfl, ht⟩ := hxy
      exact ⟨congrArg (.ok answer :: ·) (ih ht).1, (ih ht).2⟩

end Mirrors

/-! ## The last commit -/

/-- A delta as a single layer would list it that received `ws` in sequence: every
slot and every balance once, with the last value written. -/
structure Delta.Lists (d : Delta) (ws : List Write) : Prop where
  order : d = (Layer.ofWrites ws).delta
  slotsOnce : (d.slots.map fun w => (w.address, w.key)).Nodup
  balancesOnce : (d.balances.map (·.address)).Nodup
  slots : ∀ a k v, ⟨a, k, v⟩ ∈ d.slots ↔ Write.lastSlot? ws a k = some v
  balances : ∀ a n, ⟨a, n⟩ ∈ d.balances ↔ Write.lastBalance? ws a = some n
  destroyed : d.destroyed = []

theorem Layer.delta_ofWrites (ws : List Write) : (Layer.ofWrites ws).delta.Lists ws where
  order := rfl
  slotsOnce := Layer.nodup_delta_slots _
  balancesOnce := Layer.nodup_delta_balances _
  slots a k v := by rw [Layer.mem_delta_slots, Layer.slot?_ofWrites]
  balances a n := by rw [Layer.mem_delta_balances, Layer.balance?_ofWrites]
  destroyed := rfl

/-- The commit that reaches the persisted layer gives what was staged, the surviving
writes, and makes of the persisted layer what this delta does. -/
structure Settles (s : Storage) (d : Delta) (t : Storage) : Prop where
  staged : s.staged = .ok d
  commit : s.commit = .ok (some d, t)
  applied : Storage.apply ⟨s.persisted, []⟩ d = .ok t

theorem Mirrors.settles {s : Storage} {c : Copies} {o : Opened} (h : Mirrors s c)
    (only : c.opened = [o]) : ∃ d t, Settles s d t ∧ d.Lists o.writes := by
  obtain ⟨p, ls⟩ := s
  obtain ⟨b, os⟩ := c
  obtain ⟨holds, full, (stacked : Stacked b ls os)⟩ := h
  obtain rfl : os = [o] := only
  cases stacked with
  | cons stacked ws =>
    cases stacked
    refine ⟨_, _, ⟨rfl, rfl, ?_⟩, Layer.delta_ofWrites ws⟩
    have happly := Layer.apply_delta p (Layer.ofWrites ws) (Layer.full_empty.foldl_put ws) []
    exact congrArg (fun l => Except.ok (Storage.mk l [])) happly

/-- Layers answer as complete copies do, and show the same after any requests.  With
one level open, its commit gives the surviving writes of that level as staged. -/
theorem Storage.layers_refine_copies (ops : List StorageOp) :
    let layered := StorageOp.trace StorageOp.onLayers .empty ops
    let copied := StorageOp.trace StorageOp.onCopies .empty ops
    layered.1 = copied.1 ∧ ShowsSame layered.2 copied.2 ∧
      ∀ o, copied.2.opened = [o] → ∃ d t, Settles layered.2 d t ∧ d.Lists o.writes := by
  obtain ⟨answers, mirrors⟩ := Mirrors.empty.trace ops
  exact ⟨answers, mirrors.shows, fun _ => mirrors.settles⟩

/-- A slot written on two levels, the upper one committed, and a balance rolled back. -/
def StorageOp.nested : List StorageOp :=
  [.snapshot, .write "a" "k" (.int 1) ⟨30000, 30000⟩, .snapshot, .setBalance "a" 5, .rollback,
    .snapshot, .write "a" "k" (.int 2) ⟨30000, 30000⟩, .commit]

theorem Storage.layers_refine_copies_nested :
    ∃ d t, Settles (StorageOp.trace StorageOp.onLayers .empty StorageOp.nested).2 d t ∧
      d = ⟨[⟨"a", "k", .int 2⟩], [], []⟩ := by
  obtain ⟨d, t, settles, lists⟩ := (Storage.layers_refine_copies StorageOp.nested).2.2
    ⟨⟨[(("a", "k"), .int 2), (("a", "k"), .int 1)], []⟩,
      [.slot "a" "k" (.int 1), .slot "a" "k" (.int 2)]⟩ rfl
  exact ⟨d, t, settles, lists.order.trans (by decide)⟩

end ContractVM
