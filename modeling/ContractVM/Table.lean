/-
Tables of named values. A table remembers the order in which its names first
arrived: setting a name again changes its value and keeps its place. That order
decides the bytes of a journal entry and the order in which argument
expressions run, so it belongs to the type.

Every operation is described by what it does to `get?` and to `keys`; no later
module looks at the entries themselves to reason about a lookup.
-/

namespace ContractVM

/-- A finite table from names to values of `α`, in order of first arrival. -/
structure Table (α : Type) where
  entries : List (String × α)
  /-- No name occurs twice. -/
  nodup : (entries.map Prod.fst).Nodup

namespace Table

variable {α β : Type}

theorem ext_entries {s t : Table α} (h : s.entries = t.entries) : s = t := by
  cases s; cases t; cases h; rfl

instance [DecidableEq α] : DecidableEq (Table α) := fun s t =>
  if h : s.entries = t.entries then isTrue (ext_entries h)
  else isFalse fun e => h (congrArg entries e)

def empty : Table α := ⟨[], List.nodup_nil⟩

instance : EmptyCollection (Table α) := ⟨empty⟩

instance : Inhabited (Table α) := ⟨empty⟩

def keys (t : Table α) : List String := t.entries.map Prod.fst

def values (t : Table α) : List α := t.entries.map Prod.snd

def size (t : Table α) : Nat := t.entries.length

def get? (t : Table α) (k : String) : Option α := t.entries.lookup k

def contains (t : Table α) (k : String) : Bool := (t.get? k).isSome

/-! ## Setting a name -/

/-- Put `v` under `k`: in place of the value `k` has, or at the end. -/
def place (k : String) (v : α) : List (String × α) → List (String × α)
  | [] => [(k, v)]
  | e :: rest => if e.1 = k then (k, v) :: rest else e :: place k v rest

theorem map_fst_place (k : String) (v : α) (l : List (String × α)) :
    (place k v l).map Prod.fst =
      if k ∈ l.map Prod.fst then l.map Prod.fst else l.map Prod.fst ++ [k] := by
  induction l with
  | nil => simp [place]
  | cons e rest ih =>
    by_cases h : e.1 = k
    · simp [place, h]
    · have h' : ¬ k = e.1 := fun he => h he.symm
      simp only [place, h, if_false, List.map_cons, ih, List.mem_cons, h', false_or]
      split <;> simp_all

theorem nodup_place (k : String) (v : α) (l : List (String × α))
    (h : (l.map Prod.fst).Nodup) : ((place k v l).map Prod.fst).Nodup := by
  rw [map_fst_place]
  split
  · exact h
  · next hk =>
    rw [List.nodup_append]
    refine ⟨h, by simp, ?_⟩
    intro a ha b hb hab
    simp only [List.mem_singleton] at hb
    exact hk (hb ▸ hab ▸ ha)

def set (t : Table α) (k : String) (v : α) : Table α :=
  ⟨place k v t.entries, nodup_place k v t.entries t.nodup⟩

/-- Set every entry of `entries` in turn: of two values for one name the later
one stays, at the place of the first. -/
def setAll (t : Table α) (entries : List (String × α)) : Table α :=
  entries.foldl (fun t e => t.set e.1 e.2) t

def ofList (entries : List (String × α)) : Table α := empty.setAll entries

theorem lookup_entry {κ : Type} [BEq κ] [LawfulBEq κ] [DecidableEq κ] (j i : κ) (w : α)
    (rest : List (κ × α)) :
    ((i, w) :: rest).lookup j = if j = i then some w else rest.lookup j := by
  by_cases h : j = i
  · simp [h]
  · have hb : (j == i) = false := by simp [h]
    simp only [List.lookup_cons, hb, h, if_false]

theorem lookup_place (k j : String) (v : α) (l : List (String × α)) :
    (place k v l).lookup j = if j = k then some v else l.lookup j := by
  induction l with
  | nil => simp only [place, lookup_entry, List.lookup_nil]
  | cons e rest ih =>
    obtain ⟨i, w⟩ := e
    by_cases hi : i = k
    · subst hi
      simp only [place, if_true, lookup_entry]
      by_cases hj : j = i <;> simp only [hj, if_true, if_false]
    · simp only [place, hi, if_false, lookup_entry, ih]
      by_cases hj : j = i
      · have hk : ¬ j = k := fun h => hi (hj.symm.trans h)
        simp only [hj, hi, if_true, if_false]
      · simp only [hj, if_false]

theorem get?_set (t : Table α) (k j : String) (v : α) :
    (t.set k v).get? j = if j = k then some v else t.get? j :=
  lookup_place k j v t.entries

@[simp] theorem get?_set_self (t : Table α) (k : String) (v : α) :
    (t.set k v).get? k = some v := by simp [get?_set]

theorem get?_set_of_ne (t : Table α) {k j : String} (v : α) (h : j ≠ k) :
    (t.set k v).get? j = t.get? j := by simp [get?_set, h]

theorem keys_set (t : Table α) (k : String) (v : α) :
    (t.set k v).keys = if k ∈ t.keys then t.keys else t.keys ++ [k] :=
  map_fst_place k v t.entries

/-! ## Dropping a name -/

def erase (t : Table α) (k : String) : Table α where
  entries := t.entries.filter (fun e => e.1 ≠ k)
  nodup := t.nodup.sublist ((List.filter_sublist).map Prod.fst)

theorem lookup_filter {κ : Type} [BEq κ] [LawfulBEq κ] [DecidableEq κ] (p : κ → Bool) (j : κ)
    (l : List (κ × α)) :
    (l.filter fun e => p e.1).lookup j = if p j then l.lookup j else none := by
  induction l with
  | nil => exact (ite_self none).symm
  | cons e rest ih =>
    obtain ⟨i, w⟩ := e
    by_cases hi : p i
    · rw [List.filter_cons_of_pos (by exact hi), lookup_entry, ih, lookup_entry]
      by_cases hj : j = i
      · rw [if_pos hj, if_pos (hj ▸ hi), if_pos hj]
      · rw [if_neg hj, if_neg hj]
    · rw [List.filter_cons_of_neg (by exact hi), ih, lookup_entry]
      by_cases hj : j = i
      · rw [if_neg (hj ▸ hi), if_neg (hj ▸ hi)]
      · rw [if_neg hj]

theorem get?_erase (t : Table α) (k j : String) :
    (t.erase k).get? j = if j = k then none else t.get? j := by
  refine (lookup_filter (fun i => i ≠ k) j t.entries).trans ?_
  by_cases h : j = k
  · rw [if_pos h, if_neg (by simp [h])]
  · rw [if_neg h, if_pos (by simp [h])]
    rfl

/-! ## Names and lookups -/

theorem lookup_eq_none_iff {κ : Type} [BEq κ] [LawfulBEq κ] [DecidableEq κ] {k : κ}
    {l : List (κ × α)} : l.lookup k = none ↔ k ∉ l.map Prod.fst := by
  induction l with
  | nil => simp
  | cons e rest ih =>
    obtain ⟨i, w⟩ := e
    rw [lookup_entry, List.map_cons, List.mem_cons, not_or]
    by_cases h : k = i
    · simp only [h, if_true, reduceCtorEq, not_true_eq_false, false_and]
    · simp only [h, if_false, ih, not_false_eq_true, true_and]

theorem get?_eq_none_iff {t : Table α} {k : String} : t.get? k = none ↔ k ∉ t.keys :=
  lookup_eq_none_iff

theorem mem_keys_iff {t : Table α} {k : String} : k ∈ t.keys ↔ ∃ v, t.get? k = some v := by
  rw [← Option.isSome_iff_exists, Option.isSome_iff_ne_none, ne_eq, get?_eq_none_iff,
    Classical.not_not]

/-! ## Records

Some records arrive as written text, where names that read as an array index
come first, by their number, and all others follow in the order written. -/

/-- Whether `k` is an index as an array would print it: decimal digits without
a leading zero, below 2³² - 1. -/
def isIndex (k : String) : Bool :=
  match k.toList with
  | [] => false
  | c :: rest =>
    (c :: rest).all Char.isDigit && (c != '0' || rest.isEmpty) &&
      decide ((c :: rest).length ≤ 10) && decide (k.toNat?.getD 0 < 4294967295)

/-- Index names first, ascending; then the other names in their order. -/
def indexFirst (t : Table α) : Table α where
  entries :=
    (t.entries.filter fun e => isIndex e.1).mergeSort
        (fun a b => decide (a.1.toNat?.getD 0 ≤ b.1.toNat?.getD 0)) ++
      t.entries.filter fun e => !isIndex e.1
  nodup := by
    have hp : ((t.entries.filter fun e => isIndex e.1).mergeSort
          (fun a b => decide (a.1.toNat?.getD 0 ≤ b.1.toNat?.getD 0)) ++
        t.entries.filter fun e => !isIndex e.1).Perm t.entries :=
      ((List.mergeSort_perm _ _).append_right _).trans
        (List.filter_append_perm (fun e => isIndex e.1) t.entries)
    exact (hp.map Prod.fst).nodup_iff.2 t.nodup

/-- A record from its entries as written. -/
def ofWritten (entries : List (String × α)) : Table α := (ofList entries).indexFirst

end Table
end ContractVM
