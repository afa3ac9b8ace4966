/-
Text measured in 16-bit units. A character of the first 65536 counts as one
unit and every other one as a pair of surrogates. Names are ordered by these
units, and the length of a written number counts them, so both are defined
here once.
-/

namespace ContractVM
namespace Text

/-- The units of one character. -/
def unitsOf (c : Char) : List Nat :=
  let n := c.toNat
  if n < 0x10000 then [n]
  else [0xD800 + (n - 0x10000) / 0x400, 0xDC00 + (n - 0x10000) % 0x400]

def units (s : String) : List Nat := s.toList.flatMap unitsOf

/-- The text of a run of units. A surrogate without its partner has no
character and reads as U+FFFD. -/
def charsOfUnits : List Nat → List Char
  | [] => []
  | [u] => [if 0xD800 ≤ u ∧ u < 0xE000 then '\uFFFD' else Char.ofNat u]
  | u :: v :: rest =>
    if 0xD800 ≤ u ∧ u < 0xDC00 ∧ 0xDC00 ≤ v ∧ v < 0xE000 then
      Char.ofNat (0x10000 + (u - 0xD800) * 0x400 + (v - 0xDC00)) :: charsOfUnits rest
    else if 0xD800 ≤ u ∧ u < 0xE000 then '\uFFFD' :: charsOfUnits (v :: rest)
    else Char.ofNat u :: charsOfUnits (v :: rest)

def ofUnits (us : List Nat) : String := String.ofList (charsOfUnits us)

/-- Unit by unit; a text comes before its extensions. -/
def unitsLe : List Nat → List Nat → Bool
  | [], _ => true
  | _ :: _, [] => false
  | u :: s, v :: t => decide (u < v) || (decide (u = v) && unitsLe s t)

/-- The order of names. -/
def le (a b : String) : Bool := unitsLe (units a) (units b)

def sort (names : List String) : List String := names.mergeSort le

theorem unitsLe_total (s t : List Nat) : unitsLe s t || unitsLe t s := by
  induction s generalizing t with
  | nil => simp [unitsLe]
  | cons u s ih =>
    cases t with
    | nil => simp [unitsLe]
    | cons v t =>
      have h := ih t
      simp only [unitsLe, Bool.or_eq_true, Bool.and_eq_true, decide_eq_true_eq] at *
      rcases Nat.lt_trichotomy u v with huv | huv | huv
      · exact .inl (.inl huv)
      · rcases h with h | h
        · exact .inl (.inr ⟨huv, h⟩)
        · exact .inr (.inr ⟨huv.symm, h⟩)
      · exact .inr (.inl huv)

theorem unitsLe_trans {s t r : List Nat} (hst : unitsLe s t) (htr : unitsLe t r) :
    unitsLe s r := by
  induction s generalizing t r with
  | nil => simp [unitsLe]
  | cons u s ih =>
    cases t with
    | nil => simp [unitsLe] at hst
    | cons v t =>
      cases r with
      | nil => simp [unitsLe] at htr
      | cons w r =>
        simp only [unitsLe, Bool.or_eq_true, Bool.and_eq_true, decide_eq_true_eq] at *
        rcases hst with huv | ⟨huv, hst⟩
        · rcases htr with hvw | ⟨hvw, _⟩
          · exact .inl (by omega)
          · exact .inl (by omega)
        · rcases htr with hvw | ⟨hvw, htr⟩
          · exact .inl (by omega)
          · exact .inr ⟨by omega, ih hst htr⟩

theorem unitsLe_antisymm {s t : List Nat} (hst : unitsLe s t) (hts : unitsLe t s) : s = t := by
  induction s generalizing t with
  | nil =>
    cases t with
    | nil => rfl
    | cons v t => simp [unitsLe] at hts
  | cons u s ih =>
    cases t with
    | nil => simp [unitsLe] at hst
    | cons v t =>
      simp only [unitsLe, Bool.or_eq_true, Bool.and_eq_true, decide_eq_true_eq] at *
      rcases hst with huv | ⟨huv, hst⟩
      · rcases hts with hvu | ⟨hvu, _⟩ <;> omega
      · rcases hts with hvu | ⟨_, hts⟩
        · omega
        · rw [huv, ih hst hts]

theorem le_total (a b : String) : le a b || le b a := unitsLe_total _ _

theorem le_trans {a b c : String} (hab : le a b) (hbc : le b c) : le a c :=
  unitsLe_trans hab hbc

theorem sort_perm (names : List String) : (sort names).Perm names :=
  List.mergeSort_perm names le

end Text
end ContractVM
