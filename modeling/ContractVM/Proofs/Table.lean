/-
Tables as lists of entries.

A lookup does not see the order of the entries, but a stored delta does, and so
does a table that is compared with the one it was before.  These are the facts
about setting and dropping a name that hold of the entries themselves, and those
about several names in turn.
-/
import ContractVM.Table

namespace ContractVM
namespace Table

variable {α : Type}

theorem place_of_not_mem {k : String} {l : List (String × α)} (v : α)
    (h : k ∉ l.map Prod.fst) : place k v l = l ++ [(k, v)] := by
  induction l with
  | nil => rfl
  | cons e rest ih =>
    rw [List.map_cons, List.mem_cons, not_or] at h
    have hk : ¬ e.1 = k := fun he => h.1 he.symm
    rw [place, if_neg hk, ih h.2]
    rfl

theorem filter_ne_of_not_mem {k : String} {l : List (String × α)} (h : k ∉ l.map Prod.fst) :
    l.filter (fun e => e.1 ≠ k) = l :=
  List.filter_eq_self.2 fun _ he => decide_eq_true fun hk => h (hk ▸ List.mem_map_of_mem he)

theorem erase_set_of_not_contains {t : Table α} {k : String} (v : α) (h : t.contains k = false) :
    (t.set k v).erase k = t := by
  have hk : k ∉ t.entries.map Prod.fst :=
    get?_eq_none_iff.1 (Option.isNone_iff_eq_none.1 (Option.isSome_eq_false_iff.1 h))
  apply ext_entries
  show (place k v t.entries).filter (fun e => e.1 ≠ k) = t.entries
  rw [place_of_not_mem v hk, List.filter_append, filter_ne_of_not_mem hk,
    List.filter_cons_of_neg (by simp)]
  exact List.append_nil _

/-! ## Entries and lookups -/

theorem lookup_eq_some_iff {κ : Type} [BEq κ] [LawfulBEq κ] [DecidableEq κ] {k : κ} {v : α}
    {l : List (κ × α)} (nodup : (l.map Prod.fst).Nodup) : l.lookup k = some v ↔ (k, v) ∈ l := by
  induction l with
  | nil => simp
  | cons e rest ih =>
    obtain ⟨j, w⟩ := e
    rw [List.map_cons, List.nodup_cons] at nodup
    rw [lookup_entry, List.mem_cons, Prod.mk.injEq]
    by_cases h : k = j
    · subst h
      have hrest : (k, v) ∉ rest := fun hm => nodup.1 (List.mem_map.2 ⟨_, hm, rfl⟩)
      simp only [if_true, Option.some.injEq, true_and, hrest, or_false]
      exact eq_comm
    · rw [if_neg h, ih nodup.2]
      simp only [h, false_and, false_or]

theorem mem_entries_iff {t : Table α} {k : String} {v : α} :
    (k, v) ∈ t.entries ↔ t.get? k = some v := (lookup_eq_some_iff t.nodup).symm

theorem mem_place {k : String} {v : α} {e : String × α} {l : List (String × α)}
    (h : e ∈ place k v l) : e = (k, v) ∨ e ∈ l := by
  induction l with
  | nil => exact .inl (List.mem_singleton.1 h)
  | cons f rest ih =>
    rw [place] at h
    split at h
    · exact (List.mem_cons.1 h).imp id (List.mem_cons_of_mem f)
    · rcases List.mem_cons.1 h with rfl | h
      · exact .inr List.mem_cons_self
      · exact (ih h).imp id (List.mem_cons_of_mem f)

/-! ## Setting twice -/

theorem place_ne_nil (k : String) (v : α) (l : List (String × α)) : place k v l ≠ [] := by
  cases l with
  | nil => exact List.cons_ne_nil _ _
  | cons e rest =>
    rw [place]
    split <;> exact List.cons_ne_nil _ _

theorem set_set (t : Table α) (k : String) (v w : α) : (t.set k v).set k w = t.set k w := by
  apply ext_entries
  show place k w (place k v t.entries) = place k w t.entries
  generalize t.entries = l
  induction l with
  | nil => simp [place]
  | cons e rest ih =>
    by_cases h : e.1 = k
    · simp [place, h]
    · simp [place, h, ih]

theorem setAll_ne_nil (t : Table α) {entries : List (String × α)} (h : entries ≠ []) :
    (t.setAll entries).entries ≠ [] := by
  have kept : ∀ (es : List (String × α)) (u : Table α), u.entries ≠ [] → (u.setAll es).entries ≠ [] := by
    intro es
    induction es with
    | nil => exact fun _ hu => hu
    | cons e rest ih => exact fun u _ => ih _ (place_ne_nil e.1 e.2 u.entries)
  cases entries with
  | nil => exact absurd rfl h
  | cons e rest => exact kept rest _ (place_ne_nil e.1 e.2 t.entries)

/-! ## Folding one table into another

Every entry of the upper table sets its name to what `join` makes of the value the
name had below and of its own.  A name set in the upper table may as well be set
after the fold, since it arrives at the place the fold gave it. -/

/-- A name that is there keeps its place, so setting another one does not matter. -/
theorem set_comm_of_mem (t : Table α) {j k : String} (v w : α) (hk : k ∈ t.keys) (h : j ≠ k) :
    (t.set k v).set j w = (t.set j w).set k v := by
  apply ext_entries
  show place j w (place k v t.entries) = place k v (place j w t.entries)
  change k ∈ t.entries.map Prod.fst at hk
  generalize t.entries = l at hk
  induction l with
  | nil => cases hk
  | cons e rest ih =>
    by_cases hek : e.1 = k
    · have hej : ¬ e.1 = j := fun hej => h (hej.symm.trans hek)
      have hkj : ¬ k = j := fun hkj => h hkj.symm
      rw [place, if_pos hek, place, if_neg hkj, place, if_neg hej, place, if_pos hek]
    · have hrest : k ∈ rest.map Prod.fst :=
        (List.mem_cons.1 hk).resolve_left fun hke => hek hke.symm
      by_cases hej : e.1 = j
      · have hjk : ¬ j = k := h
        rw [place, if_neg hek, place, if_pos hej, place, if_pos hej, place, if_neg hjk]
      · rw [place, if_neg hek, place, if_neg hej, ih hrest, place, if_neg hej, place, if_neg hek]

section Fold

variable {β : Type} (join : Option β → α → β)

theorem mem_keys_set_of_mem {t : Table α} {j k : String} (v : α) (h : k ∈ t.keys) :
    k ∈ (t.set j v).keys := by
  rw [keys_set]
  split
  · exact h
  · exact List.mem_append_left _ h

theorem foldl_join_set_of_not_mem {k : String} {l : List (String × α)} (t : Table β) (v : β)
    (hk : k ∈ t.keys) (h : k ∉ l.map Prod.fst) :
    l.foldl (fun t e => t.set e.1 (join (t.get? e.1) e.2)) (t.set k v) =
      (l.foldl (fun t e => t.set e.1 (join (t.get? e.1) e.2)) t).set k v := by
  induction l generalizing t with
  | nil => rfl
  | cons e rest ih =>
    rw [List.map_cons, List.mem_cons, not_or] at h
    have he : e.1 ≠ k := fun he => h.1 he.symm
    rw [List.foldl_cons, List.foldl_cons, get?_set_of_ne _ _ he, set_comm_of_mem _ _ _ hk he]
    exact ih _ (mem_keys_set_of_mem _ hk) h.2

theorem foldl_join_place {k : String} {l : List (String × α)} (nodup : (l.map Prod.fst).Nodup)
    (t : Table β) (v : α) :
    (place k v l).foldl (fun t e => t.set e.1 (join (t.get? e.1) e.2)) t =
      (l.foldl (fun t e => t.set e.1 (join (t.get? e.1) e.2)) t).set k (join (t.get? k) v) := by
  induction l generalizing t with
  | nil => rfl
  | cons e rest ih =>
    rw [List.map_cons, List.nodup_cons] at nodup
    by_cases h : e.1 = k
    · have hk : k ∈ (t.set k (join (t.get? k) e.2)).keys := mem_keys_iff.2 ⟨_, get?_set_self ..⟩
      rw [place, if_pos h, List.foldl_cons, List.foldl_cons, h,
        ← foldl_join_set_of_not_mem join _ _ hk (h ▸ nodup.1), set_set]
    · rw [place, if_neg h, List.foldl_cons, ih nodup.2, List.foldl_cons,
        get?_set_of_ne _ _ fun hk => h hk.symm]

theorem get?_foldl_join {l : List (String × α)} (nodup : (l.map Prod.fst).Nodup) (t : Table β)
    (k : String) :
    (l.foldl (fun t e => t.set e.1 (join (t.get? e.1) e.2)) t).get? k =
      ((l.lookup k).map (join (t.get? k))).or (t.get? k) := by
  induction l generalizing t with
  | nil => rfl
  | cons e rest ih =>
    obtain ⟨j, w⟩ := e
    rw [List.map_cons, List.nodup_cons] at nodup
    rw [List.foldl_cons, ih nodup.2, get?_set, lookup_entry]
    by_cases h : k = j
    · subst h
      rw [lookup_eq_none_iff.2 nodup.1, if_pos rfl, if_pos rfl]
      rfl
    · rw [if_neg h, if_neg h]

end Fold

theorem get?_setAll (t : Table α) {entries : List (String × α)}
    (nodup : (entries.map Prod.fst).Nodup) (k : String) :
    (t.setAll entries).get? k = (entries.lookup k).or (t.get? k) := by
  have h := get?_foldl_join (fun _ v => v) nodup t k
  rwa [show (fun v : α => v) = id from rfl, Option.map_id, id] at h

/-- What is set last may be set after all the rest. -/
theorem setAll_set (t u : Table α) (k : String) (v : α) :
    t.setAll (u.set k v).entries = (t.setAll u.entries).set k v :=
  foldl_join_place (fun _ v => v) u.nodup t v

/-! ## Setting and dropping -/

theorem erase_set_self (t : Table α) (k : String) (v : α) : (t.set k v).erase k = t.erase k := by
  apply ext_entries
  show (place k v t.entries).filter (fun e => e.1 ≠ k) = t.entries.filter (fun e => e.1 ≠ k)
  generalize t.entries = l
  induction l with
  | nil => simp [place]
  | cons e rest ih =>
    by_cases h : e.1 = k
    · simp [place, h]
    · rw [place, if_neg h, List.filter_cons, List.filter_cons, ih]

theorem erase_set_of_ne (t : Table α) {j k : String} (v : α) (h : k ≠ j) :
    (t.set k v).erase j = (t.erase j).set k v := by
  apply ext_entries
  show (place k v t.entries).filter (fun e => e.1 ≠ j) =
    place k v (t.entries.filter (fun e => e.1 ≠ j))
  generalize t.entries = l
  induction l with
  | nil => simp [place, h]
  | cons e rest ih =>
    by_cases hk : e.1 = k
    · simp [place, hk, h]
    · by_cases hj : e.1 = j
      · rw [place, if_neg hk, List.filter_cons_of_neg (by simp [hj]),
          List.filter_cons_of_neg (by simp [hj]), ih]
      · rw [place, if_neg hk, List.filter_cons_of_pos (by simp [hj]),
          List.filter_cons_of_pos (by simp [hj]), ih, place, if_neg hk]

/-- Dropping names in turn hides those names from whatever looks at one. -/
theorem foldl_drop {σ γ : Type} {drop : σ → String → σ} (look : σ → Option γ) {a : String}
    (one : ∀ s b, look (drop s b) = if a = b then none else look s) (l : List String) (s : σ) :
    look (l.foldl drop s) = if a ∈ l then none else look s := by
  induction l generalizing s with
  | nil => rfl
  | cons b rest ih =>
    rw [List.foldl_cons, ih, one]
    by_cases hr : a ∈ rest
    · rw [if_pos hr, if_pos (List.mem_cons_of_mem _ hr)]
    · by_cases hb : a = b
      · rw [if_neg hr, if_pos hb, if_pos (hb ▸ List.mem_cons_self)]
      · rw [if_neg hr, if_neg hb, if_neg (by rw [List.mem_cons, not_or]; exact ⟨hb, hr⟩)]

end Table
end ContractVM
