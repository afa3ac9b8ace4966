/-
Text comes back from its UTF-8 bytes, but for a byte-order mark in front.

A reader takes exactly the bytes of the first character (`readChar_encode`), so
it reads a text character by character.  All it drops is the mark that it takes
the first character of some texts for (`ofUtf8_utf8`).

Units that are no text do not come back, because a surrogate without its partner
is written as U+FFFD (`units_reread_iff`).
-/
import ContractVM.Proofs.Text.Units
import ContractVM.Text.Utf8

namespace ContractVM
namespace Text

def mark : Char := '\uFEFF'

/-- Whether the text does not begin with the byte-order mark. -/
def unmarked (s : String) : Bool := decide (s.toList.head? ≠ some mark)

/-- The text without one byte-order mark in front. -/
def dropMark (s : String) : String := if unmarked s then s else String.ofList s.toList.tail

theorem dropMark_of_unmarked {s : String} (h : unmarked s = true) : dropMark s = s := if_pos h

/-! ## Bytes of one character -/

theorem toNat_byte {n : Nat} (h : n < 256) : (UInt8.ofNat n).toNat = n := by
  rw [UInt8.toNat_ofNat', Nat.mod_eq_of_lt h]

theorem byte_le {b : UInt8} {n : Nat} (h : n < 256) : b ≤ UInt8.ofNat n ↔ b.toNat ≤ n := by
  rw [UInt8.le_iff_toNat_le, toNat_byte h]

theorem le_byte {b : UInt8} {n : Nat} (h : n < 256) : UInt8.ofNat n ≤ b ↔ n ≤ b.toNat := by
  rw [UInt8.le_iff_toNat_le, toNat_byte h]

theorem byte_lt {b : UInt8} {n : Nat} (h : n < 256) : UInt8.ofNat n < b ↔ n < b.toNat := by
  rw [UInt8.lt_iff_toNat_lt, toNat_byte h]

theorem byte_eq {b : UInt8} {n : Nat} (h : n < 256) : UInt8.ofNat n = b ↔ n = b.toNat := by
  rw [← UInt8.toNat_inj, toNat_byte h]

theorem continues_byte {lo hi : UInt8} {n : Nat} (h : n < 256) :
    continues lo hi (UInt8.ofNat n) = true ↔ lo.toNat ≤ n ∧ n ≤ hi.toNat := by
  unfold continues
  rw [Bool.and_eq_true, decide_eq_true_eq, decide_eq_true_eq, byte_le h, le_byte h]

theorem continues_six (n : Nat) : continues 0x80 0xBF (UInt8.ofNat (n % 64 + 128)) = true := by
  rw [continues_byte (by omega)]
  have hlo : (0x80 : UInt8).toNat = 128 := rfl
  have hhi : (0xBF : UInt8).toNat = 191 := rfl
  omega

theorem low6_six (n : Nat) : low6 (UInt8.ofNat (n % 64 + 128)) = n % 64 := by
  unfold low6
  rw [toNat_byte (by omega)]
  omega

/-- The second of three bytes is in its bounds: no character is written longer than
needed, and none is a surrogate. -/
theorem continues_three {v : Nat} (hlo : 0x800 ≤ v) (hhi : v ≤ 0xFFFF)
    (real : v < 0xD800 ∨ 0xDFFF < v) :
    continues (bounds3 (UInt8.ofNat (v / 4096 % 16 + 224))).1
      (bounds3 (UInt8.ofNat (v / 4096 % 16 + 224))).2 (UInt8.ofNat (v / 64 % 64 + 128)) = true := by
  have hE0 : (0xE0 : UInt8).toNat = 224 := rfl
  have hED : (0xED : UInt8).toNat = 237 := rfl
  have h80 : (0x80 : UInt8).toNat = 128 := rfl
  have h9F : (0x9F : UInt8).toNat = 159 := rfl
  have hA0 : (0xA0 : UInt8).toNat = 160 := rfl
  have hBF : (0xBF : UInt8).toNat = 191 := rfl
  rw [continues_byte (by omega)]
  unfold bounds3
  simp only [byte_eq (show v / 4096 % 16 + 224 < 256 by omega)]
  split
  · simp only
    omega
  · split <;> simp only <;> omega

/-- The second of four bytes is in its bounds: nothing lies above the last character. -/
theorem continues_four {v : Nat} (hlo : 0x10000 ≤ v) (hhi : v < 0x110000) :
    continues (bounds4 (UInt8.ofNat (v / 262144 % 8 + 240))).1
      (bounds4 (UInt8.ofNat (v / 262144 % 8 + 240))).2 (UInt8.ofNat (v / 4096 % 64 + 128)) = true := by
  have hF0 : (0xF0 : UInt8).toNat = 240 := rfl
  have hF4 : (0xF4 : UInt8).toNat = 244 := rfl
  have h80 : (0x80 : UInt8).toNat = 128 := rfl
  have h8F : (0x8F : UInt8).toNat = 143 := rfl
  have h90 : (0x90 : UInt8).toNat = 144 := rfl
  have hBF : (0xBF : UInt8).toNat = 191 := rfl
  rw [continues_byte (by omega)]
  unfold bounds4
  simp only [byte_eq (show v / 262144 % 8 + 240 < 256 by omega)]
  split
  · simp only
    omega
  · split <;> simp only <;> omega

theorem readChar_one {v : Nat} (h : v ≤ 0x7F) (rest : Bytes) :
    readChar (UInt8.ofNat v) rest = (Char.ofNat v, rest) := by
  have h80 : (0x80 : UInt8).toNat = 128 := rfl
  unfold readChar
  rw [if_pos ((byte_lt (by omega)).2 (by omega)), toNat_byte (by omega)]

theorem readChar_two {v : Nat} (hlo : 0x80 ≤ v) (hhi : v ≤ 0x7FF) (rest : Bytes) :
    readChar (UInt8.ofNat (v / 64 % 32 + 192)) (UInt8.ofNat (v % 64 + 128) :: rest) =
      (Char.ofNat v, rest) := by
  have h80 : (0x80 : UInt8).toNat = 128 := rfl
  have hC2 : (0xC2 : UInt8).toNat = 194 := rfl
  have hDF : (0xDF : UInt8).toNat = 223 := rfl
  have hfirst : v / 64 % 32 + 192 < 256 := by omega
  unfold readChar
  rw [if_neg (by rw [byte_lt hfirst]; omega),
    if_pos (by rw [byte_le hfirst, le_byte hfirst]; omega)]
  simp only [continues_six, low6_six, if_true, toNat_byte hfirst]
  rw [show (v / 64 % 32 + 192) % 32 * 64 + v % 64 = v by omega]

theorem readChar_three {v : Nat} (hlo : 0x800 ≤ v) (hhi : v ≤ 0xFFFF)
    (real : v < 0xD800 ∨ 0xDFFF < v) (rest : Bytes) :
    readChar (UInt8.ofNat (v / 4096 % 16 + 224))
      (UInt8.ofNat (v / 64 % 64 + 128) :: UInt8.ofNat (v % 64 + 128) :: rest) =
        (Char.ofNat v, rest) := by
  have h80 : (0x80 : UInt8).toNat = 128 := rfl
  have hDF : (0xDF : UInt8).toNat = 223 := rfl
  have hE0 : (0xE0 : UInt8).toNat = 224 := rfl
  have hEF : (0xEF : UInt8).toNat = 239 := rfl
  have hfirst : v / 4096 % 16 + 224 < 256 := by omega
  unfold readChar
  rw [if_neg (by rw [byte_lt hfirst]; omega),
    if_neg (by rw [byte_le hfirst, le_byte hfirst]; omega),
    if_pos (by rw [byte_le hfirst, le_byte hfirst]; omega)]
  simp only [continues_three hlo hhi real, continues_six, low6_six, if_true, toNat_byte hfirst]
  rw [show (v / 4096 % 16 + 224) % 16 * 4096 + v / 64 % 64 * 64 + v % 64 = v by omega]

theorem readChar_four {v : Nat} (hlo : 0x10000 ≤ v) (hhi : v < 0x110000) (rest : Bytes) :
    readChar (UInt8.ofNat (v / 262144 % 8 + 240))
      (UInt8.ofNat (v / 4096 % 64 + 128) :: UInt8.ofNat (v / 64 % 64 + 128) ::
        UInt8.ofNat (v % 64 + 128) :: rest) = (Char.ofNat v, rest) := by
  have h80 : (0x80 : UInt8).toNat = 128 := rfl
  have hDF : (0xDF : UInt8).toNat = 223 := rfl
  have hEF : (0xEF : UInt8).toNat = 239 := rfl
  have hF0 : (0xF0 : UInt8).toNat = 240 := rfl
  have hF4 : (0xF4 : UInt8).toNat = 244 := rfl
  have hfirst : v / 262144 % 8 + 240 < 256 := by omega
  unfold readChar
  rw [if_neg (by rw [byte_lt hfirst]; omega),
    if_neg (by rw [byte_le hfirst, le_byte hfirst]; omega),
    if_neg (by rw [byte_le hfirst, le_byte hfirst]; omega),
    if_pos (by rw [byte_le hfirst, le_byte hfirst]; omega)]
  simp only [continues_four hlo hhi, continues_six, low6_six, if_true, toNat_byte hfirst]
  rw [show (v / 262144 % 8 + 240) % 8 * 262144 + v / 4096 % 64 * 4096 + v / 64 % 64 * 64 + v % 64 =
    v by omega]

/-! ## Texts -/

/-- A reader takes the bytes of a character and leaves the others. -/
theorem readChar_encode (c : Char) (rest : Bytes) :
    ∃ b tail, String.utf8EncodeChar c ++ rest = b :: tail ∧ readChar b tail = (c, rest) := by
  have hvalid : c.toNat < 0xD800 ∨ 0xDFFF < c.toNat ∧ c.toNat < 0x110000 := c.valid
  have hc : Char.ofNat c.val.toNat = c := Char.ofNat_toNat c
  have hv : c.val.toNat = c.toNat := rfl
  unfold String.utf8EncodeChar
  simp only
  by_cases hone : c.val.toNat ≤ 0x7F
  · rw [if_pos hone]
    exact ⟨_, _, rfl, (readChar_one hone rest).trans (by rw [hc])⟩
  · rw [if_neg hone]
    by_cases htwo : c.val.toNat ≤ 0x7FF
    · rw [if_pos htwo]
      exact ⟨_, _, rfl, (readChar_two (by omega) htwo rest).trans (by rw [hc])⟩
    · rw [if_neg htwo]
      by_cases hthree : c.val.toNat ≤ 0xFFFF
      · rw [if_pos hthree]
        exact ⟨_, _, rfl, (readChar_three (by omega) hthree (by omega) rest).trans (by rw [hc])⟩
      · rw [if_neg hthree]
        exact ⟨_, _, rfl, (readChar_four (by omega) (by omega) rest).trans (by rw [hc])⟩

theorem readChars_encode (cs : List Char) : readChars (cs.flatMap String.utf8EncodeChar) = cs := by
  induction cs with
  | nil => exact readChars.eq_1
  | cons c cs ih =>
    rw [List.flatMap_cons]
    obtain ⟨b, tail, heq, hread⟩ := readChar_encode c (cs.flatMap String.utf8EncodeChar)
    rw [heq, readChars, hread, ih]

/-- What is read from the bytes of a text is the text without a mark in front. -/
theorem utf8_injective {s t : String} (h : utf8 s = utf8 t) : s = t := by
  have hchars : readChars (utf8 s) = s.toList := readChars_encode s.toList
  rw [h] at hchars
  exact String.toList_inj.1 (hchars.symm.trans (readChars_encode t.toList))

theorem ofUtf8_utf8 (s : String) : ofUtf8 (utf8 s) = dropMark s := by
  have hread : readChars (utf8 s) = s.toList := readChars_encode s.toList
  unfold ofUtf8
  split
  · next rest heq =>
    have hmark : readChar 0xEF (0xBB :: 0xBF :: rest) = (mark, rest) :=
      readChar_three (v := 0xFEFF) (by decide) (by decide) (by decide) rest
    rw [heq, readChars, hmark] at hread
    have marked : ¬ unmarked s = true := by
      rw [unmarked, ← hread]
      simp
    rw [dropMark, if_neg marked, ← hread]
    rfl
  · next hne =>
    rw [hread, String.ofList_toList]
    refine (dropMark_of_unmarked (decide_eq_true fun hmark => ?_)).symm
    obtain ⟨cs, hcs⟩ := List.head?_eq_some_iff.1 hmark
    refine hne (cs.flatMap String.utf8EncodeChar) ?_
    rw [utf8, hcs]
    rfl

/-! ## Texts that come back -/

theorem dropMark_eq_self_iff {s : String} : dropMark s = s ↔ unmarked s = true := by
  refine ⟨fun h => ?_, dropMark_of_unmarked⟩
  cases hs : s.toList with
  | nil => exact decide_eq_true (by rw [hs]; exact nofun)
  | cons c cs =>
    by_cases marked : unmarked s = true
    · exact marked
    · rw [dropMark, if_neg marked, ← String.toList_inj, String.toList_ofList, hs] at h
      exact absurd h.symm (List.cons_ne_self c cs)

theorem head?_unitsOf_append (c : Char) (rest : List Nat) :
    (unitsOf c ++ rest).head? = some 0xFEFF ↔ c = mark := by
  have hlt := toNat_lt c
  have hmark : c = mark ↔ c.toNat = 0xFEFF := Char.toNat_inj.symm
  rw [hmark]
  unfold unitsOf
  by_cases h : c.toNat < 0x10000
  · simp only [h, if_true, List.singleton_append, List.head?_cons, Option.some.injEq]
  · -- The first unit of a pair lies below the mark, the character above it.
    simp only [h, if_false, List.cons_append, List.head?_cons, Option.some.injEq]
    omega

theorem unmarked_iff_units {s : String} : unmarked s = true ↔ (units s).head? ≠ some 0xFEFF := by
  rw [unmarked, decide_eq_true_eq, units]
  cases s.toList with
  | nil => exact ⟨fun _ => nofun, fun _ => nofun⟩
  | cons c cs =>
    rw [List.flatMap_cons, ne_eq, ne_eq, head?_unitsOf_append, List.head?_cons, Option.some.injEq]

/-- Which units come back from the bytes that are written for them. -/
theorem units_reread_iff {us : List Nat} (small : ∀ u ∈ us, u < 0x10000) :
    units (ofUtf8 (utf8OfUnits us)) = us ↔ paired us = true ∧ us.head? ≠ some 0xFEFF := by
  rw [utf8OfUnits, ofUtf8_utf8]
  constructor
  · intro h
    have hpaired : paired us = true := h ▸ paired_units _
    have hus := (units_ofUnits_iff small).2 hpaired
    have hsame := units_injective (h.trans hus.symm)
    refine ⟨hpaired, ?_⟩
    rw [← hus]
    exact unmarked_iff_units.1 (dropMark_eq_self_iff.1 hsame)
  · rintro ⟨hpaired, hhead⟩
    have hus := (units_ofUnits_iff small).2 hpaired
    rw [← hus] at hhead
    rw [dropMark_of_unmarked (unmarked_iff_units.2 hhead), hus]

/-- The units of a text are written as the text is. -/
theorem utf8OfUnits_units (s : String) : utf8OfUnits (units s) = utf8 s := by
  rw [utf8OfUnits, ofUnits_units]

theorem utf8OfUnits_lone {u : Nat} (lone : 0xD800 ≤ u ∧ u < 0xE000) :
    utf8OfUnits [u] = [0xEF, 0xBF, 0xBD] := by
  unfold utf8OfUnits ofUnits utf8
  rw [String.toList_ofList, charsOfUnits, if_pos lone]
  decide

end Text
end ContractVM
