/-
Bytes and their hexadecimal text, both ways.

A well-formed address is the text of its own bytes, so it comes back from them
unchanged, and whatever text has bytes of the right length gives a well-formed
one.  The bytes of a number have no zero in front, which is what a length needs.
-/
import ContractVM.Address
import Mathlib.Algebra.Group.Nat.Defs

namespace ContractVM
namespace Text

/-! ## Numbers -/

theorem bigEndian_of_pos {n : Nat} (h : 0 < n) :
    bigEndian n = bigEndian (n / 256) ++ [UInt8.ofNat (n % 256)] := by
  rw [bigEndian, if_neg (by omega)]

theorem length_bigEndian_le {n k : Nat} (h : n < 256 ^ k) : (bigEndian n).length ≤ k := by
  induction k generalizing n with
  | zero =>
    have hn : n = 0 := by rw [Nat.pow_zero] at h; omega
    rw [hn, bigEndian_zero]
    exact Nat.le_refl 0
  | succ k ih =>
    by_cases hn : n = 0
    · rw [hn, bigEndian_zero]
      exact Nat.zero_le _
    · rw [Nat.pow_succ] at h
      have hle := ih (n := n / 256) (by omega)
      rw [bigEndian_of_pos (by omega), List.length_append]
      simp only [List.length_singleton]
      omega

theorem length_bigEndian_pos {n : Nat} (h : 0 < n) : 0 < (bigEndian n).length := by
  rw [bigEndian_of_pos h, List.length_append]
  simp

theorem head?_bigEndian (n : Nat) : (bigEndian n).head? ≠ some 0 := by
  induction n using Nat.strongRecOn with
  | ind n ih =>
    by_cases hn : n = 0
    · rw [hn, bigEndian_zero]
      simp
    · rw [bigEndian_of_pos (by omega)]
      by_cases hsmall : n < 256
      · have hzero : n / 256 = 0 := by omega
        have hmod : n % 256 = n := by omega
        rw [hzero, bigEndian_zero, List.nil_append, List.head?_cons, hmod]
        intro h
        have htoNat := congrArg UInt8.toNat (Option.some.inj h)
        rw [UInt8.toNat_ofNat'] at htoNat
        simp at htoNat
        omega
      · have hne : bigEndian (n / 256) ≠ [] := by
          have := length_bigEndian_pos (n := n / 256) (by omega)
          exact List.ne_nil_of_length_pos this
        intro h
        rw [List.head?_append, Option.or_eq_some_iff] at h
        rcases h with h | ⟨h, -⟩
        · exact ih (n / 256) (by omega) h
        · exact hne (List.head?_eq_none_iff.1 h)

/-! ## Digits -/

theorem isLowerHex_iff {c : Char} :
    Address.isLowerHex c = true ↔ 48 ≤ c.toNat ∧ c.toNat ≤ 57 ∨ 97 ≤ c.toNat ∧ c.toNat ≤ 102 := by
  unfold Address.isLowerHex Char.isDigit
  simp only [Bool.or_eq_true, Bool.and_eq_true, decide_eq_true_eq, ge_iff_le, Char.le_def,
    UInt32.le_iff_toNat_le]
  exact Iff.rfl

theorem unitsOf_lowerHex {c : Char} (h : Address.isLowerHex c = true) : unitsOf c = [c.toNat] := by
  rw [isLowerHex_iff] at h
  unfold unitsOf
  simp only
  rw [if_pos (by omega)]

theorem toLower_lowerHex {c : Char} (h : Address.isLowerHex c = true) : c.toLower = c := by
  rw [isLowerHex_iff] at h
  unfold Char.toLower
  rw [dif_neg]
  intro hupper
  have hlo : 65 ≤ c.toNat := UInt32.le_iff_toNat_le.1 hupper.1
  have hhi : c.toNat ≤ 90 := UInt32.le_iff_toNat_le.1 hupper.2
  omega

theorem hexValue?_lowerHex {c : Char} (h : Address.isLowerHex c = true) :
    ∃ v, hexValue? c.toNat = some v ∧ v < 16 ∧ hexDigit v = c := by
  rw [isLowerHex_iff] at h
  unfold hexValue? hexDigit
  by_cases hdec : 48 ≤ c.toNat ∧ c.toNat ≤ 57
  · refine ⟨c.toNat - 48, if_pos hdec, by omega, ?_⟩
    rw [if_pos (by omega), show 48 + (c.toNat - 48) = c.toNat by omega, Char.ofNat_toNat]
  · have hletter : 97 ≤ c.toNat ∧ c.toNat ≤ 102 := by omega
    refine ⟨c.toNat - 87, ?_, by omega, ?_⟩
    · rw [if_neg hdec, if_pos hletter]
    · rw [if_neg (by omega), show 87 + (c.toNat - 87) = c.toNat by omega, Char.ofNat_toNat]

/-- Pairs of digits are the text of the bytes they are read as. -/
theorem readPairs_lowerHex : ∀ (digits : List Char) (index : Nat),
    (∀ c ∈ digits, Address.isLowerHex c = true) → digits.length % 2 = 0 →
      ∃ b, readPairs index (digits.map Char.toNat) = .ok b ∧
        b.flatMap (fun x => [hexDigit (x.toNat / 16), hexDigit (x.toNat % 16)]) = digits
  | [], _, _, _ => ⟨[], rfl, rfl⟩
  | [_], _, _, heven => by simp at heven
  | c :: d :: rest, index, hlower, heven => by
    obtain ⟨x, hx, hx16, hxc⟩ := hexValue?_lowerHex (hlower c (by simp))
    obtain ⟨y, hy, hy16, hyd⟩ := hexValue?_lowerHex (hlower d (by simp))
    obtain ⟨b, hb, hdigits⟩ := readPairs_lowerHex rest (index + 2)
      (fun e he => hlower e (by simp [he])) (by simp only [List.length_cons] at heven; omega)
    refine ⟨UInt8.ofNat (16 * x + y) :: b, ?_, ?_⟩
    · simp only [List.map_cons, readPairs, hx, hy, hb]
    · have hbyte : (UInt8.ofNat (16 * x + y)).toNat = 16 * x + y := by
        rw [UInt8.toNat_ofNat']
        omega
      rw [List.flatMap_cons, hdigits, hbyte, show (16 * x + y) / 16 = x by omega,
        show (16 * x + y) % 16 = y by omega, hxc, hyd]
      rfl

theorem hexDigit_injective {m n : Nat} (hm : m < 16) (hn : n < 16) (h : hexDigit m = hexDigit n) :
    m = n := by
  have hall : ∀ i j : Fin 16, hexDigit i = hexDigit j → i = j := by decide
  exact congrArg Fin.val (hall ⟨m, hm⟩ ⟨n, hn⟩ h)

theorem hex_injective {b c : Bytes} (h : hex b = hex c) : b = c := by
  replace h := String.ofList_injective h
  induction b generalizing c with
  | nil =>
    cases c with
    | nil => rfl
    | cons y c => cases h
  | cons x b ih =>
    cases c with
    | nil => cases h
    | cons y c =>
      rw [List.flatMap_cons, List.flatMap_cons] at h
      obtain ⟨hhigh, h⟩ := List.cons.inj h
      obtain ⟨hlow, h⟩ := List.cons.inj h
      have hx := x.toNat_lt
      have hy := y.toNat_lt
      have high := hexDigit_injective (by omega) (by omega) hhigh
      have low := hexDigit_injective (by omega) (by omega) hlow
      rw [UInt8.toNat_inj.1 (by omega : x.toNat = y.toNat), ih h]

theorem hex0x_injective {b c : Bytes} (h : hex0x b = hex0x c) : b = c :=
  hex_injective (String.append_right_inj _ |>.1 h)

end Text

/-! ## Addresses -/

namespace Address

open Text

theorem isValid_iff {a : Address} :
    isValid a = true ↔ ∃ digits, a.toList = '0' :: 'x' :: digits ∧ digits.length = 40 ∧
      ∀ c ∈ digits, isLowerHex c = true := by
  unfold isValid
  constructor
  · intro h
    split at h
    · next digits heq =>
      rw [Bool.and_eq_true, decide_eq_true_eq, List.all_eq_true] at h
      exact ⟨digits, heq, h⟩
    · cases h
  · rintro ⟨digits, heq, hlength, hlower⟩
    rw [heq]
    simp only [Bool.and_eq_true, decide_eq_true_eq, List.all_eq_true]
    exact ⟨hlength, hlower⟩

theorem isValid_of_ofText? {s : String} {a : Address} (h : ofText? s = some a) :
    isValid a = true := by
  unfold ofText? at h
  split at h
  · next hvalid =>
    cases h
    exact hvalid
  · cases h

theorem ofText?_self {a : Address} (h : isValid a = true) : ofText? a = some a := by
  obtain ⟨digits, heq, -, hlower⟩ := isValid_iff.1 h
  have hsame : a.toLower = a := by
    rw [← String.toList_inj]
    unfold String.toLower
    rw [String.toList_map, heq, List.map_cons, List.map_cons]
    congr 2
    rw [List.map_congr_left fun c hc => toLower_lowerHex (hlower c hc), List.map_id']
  unfold ofText?
  rw [hsame, if_pos h]

theorem ofBytes?_toBytes {a : Address} (h : isValid a = true) :
    ∃ b, toBytes a = .ok b ∧ ofBytes? b = some a := by
  obtain ⟨digits, heq, hlength, hlower⟩ := isValid_iff.1 h
  obtain ⟨b, hb, hdigits⟩ := readPairs_lowerHex digits 0 hlower (by omega)
  have hunits : (units a).drop 2 = digits.map Char.toNat := by
    unfold units
    rw [heq]
    show digits.flatMap unitsOf = _
    rw [List.flatMap_def, List.map_congr_left fun c hc => unitsOf_lowerHex (hlower c hc),
      ← List.flatMap_def, List.map_eq_flatMap]
  refine ⟨b, ?_, ?_⟩
  · unfold toBytes readHex
    rw [hunits, List.length_map, if_neg (by omega)]
    exact hb
  · have htext : hex0x b = a := by
      rw [← String.toList_inj]
      unfold hex0x hex
      rw [hdigits, String.toList_append, heq]
      exact congrArg (['0', 'x'] ++ ·) String.toList_ofList
    unfold ofBytes?
    rw [htext]
    exact ofText?_self h

end Address

end ContractVM
