/-
The order of names.

Two texts of the same units are one text, because the units of a text read back
as the text.  So the order of names tells any two names apart, and a list that is
sorted without repetition is decided by its members.

The other way around, units read as a text are the units of that text if every
surrogate among them has its partner, and only then (`units_ofUnits_iff`).
-/
import ContractVM.Text.Units

namespace ContractVM
namespace Text

/-! ## Units read back -/

theorem toNat_not_surrogate (c : Char) : ¬ (0xD800 ≤ c.toNat ∧ c.toNat < 0xE000) := by
  have h : c.toNat < 0xD800 ∨ 0xDFFF < c.toNat ∧ c.toNat < 0x110000 := c.valid
  omega

theorem toNat_lt (c : Char) : c.toNat < 0x110000 := by
  have h : c.toNat < 0xD800 ∨ 0xDFFF < c.toNat ∧ c.toNat < 0x110000 := c.valid
  omega

theorem charsOfUnits_unitsOf_append (c : Char) (rest : List Nat) :
    charsOfUnits (unitsOf c ++ rest) = c :: charsOfUnits rest := by
  have hsurrogate := toNat_not_surrogate c
  have hlt := toNat_lt c
  unfold unitsOf
  by_cases h : c.toNat < 0x10000
  · simp only [h, if_true, List.singleton_append]
    cases rest with
    | nil =>
      show [if 0xD800 ≤ c.toNat ∧ c.toNat < 0xE000 then '\uFFFD' else Char.ofNat c.toNat] = [c]
      rw [if_neg hsurrogate, Char.ofNat_toNat]
    | cons v rest =>
      have hpair : ¬ (0xD800 ≤ c.toNat ∧ c.toNat < 0xDC00 ∧ 0xDC00 ≤ v ∧ v < 0xE000) := by omega
      rw [charsOfUnits, if_neg hpair, if_neg hsurrogate, Char.ofNat_toNat]
  · -- The pair is the quotient and the remainder of what exceeds 16 bits.
    have hn : 0x10000 + (0xD800 + (c.toNat - 0x10000) / 0x400 - 0xD800) * 0x400 +
        (0xDC00 + (c.toNat - 0x10000) % 0x400 - 0xDC00) = c.toNat := by omega
    simp only [h, if_false, List.cons_append, List.nil_append]
    rw [charsOfUnits, if_pos (by omega), hn, Char.ofNat_toNat]

theorem charsOfUnits_flatMap (cs : List Char) : charsOfUnits (cs.flatMap unitsOf) = cs := by
  induction cs with
  | nil => rfl
  | cons c cs ih => rw [List.flatMap_cons, charsOfUnits_unitsOf_append, ih]

theorem ofUnits_units (s : String) : ofUnits (units s) = s := by
  unfold ofUnits units
  rw [charsOfUnits_flatMap, String.ofList_toList]

theorem units_injective {s t : String} (h : units s = units t) : s = t := by
  rw [← ofUnits_units s, h, ofUnits_units]

theorem le_antisymm {a b : String} (hab : le a b) (hba : le b a) : a = b :=
  units_injective (unitsLe_antisymm hab hba)

/-! ## Units of which a text is made -/

/-- Whether every surrogate has its partner. -/
def paired : List Nat → Bool
  | [] => true
  | [u] => decide ¬ (0xD800 ≤ u ∧ u < 0xE000)
  | u :: v :: rest =>
    if 0xD800 ≤ u ∧ u < 0xDC00 ∧ 0xDC00 ≤ v ∧ v < 0xE000 then paired rest
    else if 0xD800 ≤ u ∧ u < 0xE000 then false
    else paired (v :: rest)

theorem toNat_ofNat_of_valid {n : Nat} (h : n.isValidChar) : (Char.ofNat n).toNat = n := by
  rw [Char.ofNat, dif_pos h]
  rfl

theorem unitsOf_ofNat {u : Nat} (small : u < 0x10000) (real : ¬ (0xD800 ≤ u ∧ u < 0xE000)) :
    unitsOf (Char.ofNat u) = [u] := by
  have hvalid : u.isValidChar := by
    unfold Nat.isValidChar
    omega
  unfold unitsOf
  rw [toNat_ofNat_of_valid hvalid]
  exact if_pos small

theorem unitsOf_pair {u v : Nat} (h : 0xD800 ≤ u ∧ u < 0xDC00 ∧ 0xDC00 ≤ v ∧ v < 0xE000) :
    unitsOf (Char.ofNat (0x10000 + (u - 0xD800) * 0x400 + (v - 0xDC00))) = [u, v] := by
  have hvalid : (0x10000 + (u - 0xD800) * 0x400 + (v - 0xDC00)).isValidChar := by
    unfold Nat.isValidChar
    omega
  have hhigh : 0xD800 + (0x10000 + (u - 0xD800) * 0x400 + (v - 0xDC00) - 0x10000) / 0x400 = u := by
    omega
  have hlow : 0xDC00 + (0x10000 + (u - 0xD800) * 0x400 + (v - 0xDC00) - 0x10000) % 0x400 = v := by
    omega
  unfold unitsOf
  rw [toNat_ofNat_of_valid hvalid]
  simp only
  rw [if_neg (by omega), hhigh, hlow]

theorem paired_unitsOf_append (c : Char) (rest : List Nat) :
    paired (unitsOf c ++ rest) = paired rest := by
  have hsurrogate := toNat_not_surrogate c
  have hlt := toNat_lt c
  unfold unitsOf
  by_cases h : c.toNat < 0x10000
  · simp only [h, if_true, List.singleton_append]
    cases rest with
    | nil => exact decide_eq_true hsurrogate
    | cons v rest => rw [paired, if_neg (by omega), if_neg hsurrogate]
  · simp only [h, if_false, List.cons_append, List.nil_append]
    rw [paired, if_pos (by omega)]

theorem paired_units (s : String) : paired (units s) = true := by
  unfold units
  induction s.toList with
  | nil => rfl
  | cons c cs ih => rw [List.flatMap_cons, paired_unitsOf_append, ih]

theorem flatMap_charsOfUnits {us : List Nat} (small : ∀ u ∈ us, u < 0x10000)
    (h : paired us = true) : (charsOfUnits us).flatMap unitsOf = us := by
  induction us using paired.induct with
  | case1 => rfl
  | case2 u =>
    have real := of_decide_eq_true h
    rw [charsOfUnits, if_neg real, List.flatMap_singleton,
      unitsOf_ofNat (small u List.mem_cons_self) real]
  | case3 u v rest pair ih =>
    rw [paired, if_pos pair] at h
    rw [charsOfUnits, if_pos pair, List.flatMap_cons, unitsOf_pair pair,
      ih (fun x hx => small x (List.mem_cons_of_mem u (List.mem_cons_of_mem v hx))) h]
    rfl
  | case4 u v rest pair lone =>
    rw [paired, if_neg pair, if_pos lone] at h
    cases h
  | case5 u v rest pair real ih =>
    rw [paired, if_neg pair, if_neg real] at h
    rw [charsOfUnits, if_neg pair, if_neg real, List.flatMap_cons,
      unitsOf_ofNat (small u List.mem_cons_self) real,
      ih (fun x hx => small x (List.mem_cons_of_mem u hx)) h]
    rfl

/-- Units are those of the text that they read as if every surrogate has its partner, and
only then. -/
theorem units_ofUnits_iff {us : List Nat} (small : ∀ u ∈ us, u < 0x10000) :
    units (ofUnits us) = us ↔ paired us = true := by
  refine ⟨fun h => h ▸ paired_units _, fun h => ?_⟩
  unfold units ofUnits
  rw [String.toList_ofList, flatMap_charsOfUnits small h]

/-! ## Sorting -/

/-- Entries in the order of their names, whatever else they hold. -/
theorem pairwise_mergeSort_le {α : Type} (name : α → String) (l : List α) :
    (l.mergeSort fun a b => le (name a) (name b)).Pairwise fun a b => le (name a) (name b) :=
  List.pairwise_mergeSort (fun a b c => le_trans (a := name a) (b := name b) (c := name c))
    (fun a b => le_total (name a) (name b)) l

theorem pairwise_sort (names : List String) : (sort names).Pairwise fun a b => le a b :=
  pairwise_mergeSort_le id names

/-- Sorted lists of the same entries are equal, if a name occurs only once. -/
theorem eq_of_sorted_of_mem_iff {α : Type} (name : α → String) {l l' : List α}
    (nodup : (l.map name).Nodup) (nodup' : (l'.map name).Nodup)
    (sorted : l.Pairwise fun a b => le (name a) (name b))
    (sorted' : l'.Pairwise fun a b => le (name a) (name b))
    (same : ∀ e, e ∈ l ↔ e ∈ l') : l = l' := by
  have hnodup : ∀ {m : List α}, (m.map name).Nodup → m.Nodup := fun hm =>
    List.Pairwise.of_map name (fun _ _ hne he => hne (congrArg name he)) hm
  have hone : ∀ {m : List α}, (m.map name).Nodup → ∀ e ∈ m, ∀ f ∈ m, name e = name f → e = f := by
    intro m hm e he f hf hef
    induction m with
    | nil => cases he
    | cons g rest ih =>
      rw [List.map_cons, List.nodup_cons] at hm
      rcases List.mem_cons.1 he with rfl | he' <;> rcases List.mem_cons.1 hf with rfl | hf'
      · rfl
      · exact absurd (hef ▸ List.mem_map_of_mem hf') hm.1
      · exact absurd (hef ▸ List.mem_map_of_mem he') hm.1
      · exact ih hm.2 he' hf'
  have hperm : l.Perm l' :=
    (List.perm_ext_iff_of_nodup (hnodup nodup) (hnodup nodup')).2 same
  exact hperm.eq_of_pairwise
    (fun e f he hf hef hfe => hone nodup e he f ((same f).2 hf) (le_antisymm hef hfe)) sorted sorted'

theorem nodup_eraseDups (l : List String) : l.eraseDups.Nodup := by
  induction h : l.length using Nat.strongRecOn generalizing l with
  | ind n ih =>
    cases l with
    | nil => exact List.nodup_nil
    | cons a rest =>
      rw [List.eraseDups_cons, List.nodup_cons]
      have hshort : (rest.filter fun b => !b == a).length < n := by
        have := List.length_filter_le (fun b => !b == a) rest
        rw [List.length_cons] at h
        omega
      refine ⟨fun ha => ?_, ih _ hshort _ rfl⟩
      have hfilter := (List.mem_filter.1 (List.mem_eraseDups.1 ha)).2
      simp at hfilter

/-- The distinct names of a list in order depend on its members only. -/
theorem sort_eraseDups_congr {l l' : List String} (same : ∀ a, a ∈ l ↔ a ∈ l') :
    sort l.eraseDups = sort l'.eraseDups := by
  refine eq_of_sorted_of_mem_iff id ?_ ?_ (pairwise_sort _) (pairwise_sort _) ?_
  · rw [List.map_id]
    exact (sort_perm _).nodup_iff.2 (nodup_eraseDups l)
  · rw [List.map_id]
    exact (sort_perm _).nodup_iff.2 (nodup_eraseDups l')
  · intro a
    rw [(sort_perm _).mem_iff, (sort_perm _).mem_iff, List.mem_eraseDups, List.mem_eraseDups, same]

end Text
end ContractVM
