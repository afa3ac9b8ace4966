/-
Reading back what was written as length-prefixed items.

The first item of an input is split off from whatever follows (`split_encode`),
so items written one after the other are read one after the other.  The length
of a header has at most eight bytes, so this is about items shorter than 2⁶⁴.
-/
import ContractVM.Rlp
import ContractVM.Proofs.Text.Hex

namespace ContractVM
namespace Rlp

open Text (bigEndian natOfBytes)

/-! ## Cutting -/

theorem cut_append (payload rest : Bytes) :
    cut payload.length (payload ++ rest) = .ok (payload, rest) := by
  unfold cut
  rw [if_neg (by rw [List.length_append]; omega), List.take_left, List.drop_left]

theorem cutLength_append {n : Nat} (rest : Bytes) :
    cutLength (bigEndian n).length (bigEndian n ++ rest) = .ok (n, rest) := by
  unfold cutLength
  rw [cut_append]
  simp only [if_neg (Text.head?_bigEndian n), Text.natOfBytes_bigEndian]

/-! ## Headers -/

/-- What a reader finds in front of the bytes of an item. -/
def Item.whole (rest : Bytes) : Item → Split
  | .bytes b => ⟨false, b, rest⟩
  | .list items => ⟨true, encodeAll items, rest⟩

theorem split_short_bytes {b : Bytes} (rest : Bytes) (hlength : b.length ≤ 55)
    (needed : ∀ x, b = [x] → 0x80 ≤ x) :
    split (UInt8.ofNat (0x80 + b.length)) (b ++ rest) = .ok ⟨false, b, rest⟩ := by
  have hfirst : (UInt8.ofNat (0x80 + b.length)).toNat = 0x80 + b.length := by
    rw [UInt8.toNat_ofNat']
    omega
  have hlong : ¬ (0x80 + b.length = 0x81 ∧ b.head?.any (· < 0x80) = true) := by
    rintro ⟨hone, hsmall⟩
    obtain ⟨x, rfl⟩ := List.length_eq_one_iff.1 (show b.length = 1 by omega)
    have hx := UInt8.le_iff_toNat_le.1 (needed x rfl)
    have hx' := UInt8.lt_iff_toNat_lt.1 (show x < 0x80 by simpa using hsmall)
    omega
  unfold split
  simp only [hfirst]
  rw [if_neg (by omega), if_pos (by omega), Nat.add_sub_cancel_left, cut_append]
  simp only [if_neg hlong]

theorem split_long_bytes {b : Bytes} (rest : Bytes) (hlength : 55 < b.length)
    (short : b.length < 256 ^ 8) :
    split (UInt8.ofNat (0x80 + 55 + (bigEndian b.length).length))
      (bigEndian b.length ++ (b ++ rest)) = .ok ⟨false, b, rest⟩ := by
  have hlo := Text.length_bigEndian_pos (show 0 < b.length by omega)
  have hhi := Text.length_bigEndian_le short
  have hfirst : (UInt8.ofNat (0x80 + 55 + (bigEndian b.length).length)).toNat =
      0xB7 + (bigEndian b.length).length := by
    rw [UInt8.toNat_ofNat']
    omega
  have hroom : ¬ (bigEndian b.length ++ (b ++ rest)).length <
      0xB7 + (bigEndian b.length).length - 0xB6 := by
    simp only [List.length_append]
    omega
  unfold split
  simp only [hfirst]
  rw [if_neg (by omega), if_neg (by omega), if_pos (by omega), if_neg hroom,
    Nat.add_sub_cancel_left, cutLength_append]
  simp only [if_neg (show ¬ b.length ≤ 55 by omega), cut_append]

theorem split_short_list {b : Bytes} (rest : Bytes) (hlength : b.length ≤ 55) :
    split (UInt8.ofNat (0xC0 + b.length)) (b ++ rest) = .ok ⟨true, b, rest⟩ := by
  have hfirst : (UInt8.ofNat (0xC0 + b.length)).toNat = 0xC0 + b.length := by
    rw [UInt8.toNat_ofNat']
    omega
  unfold split
  simp only [hfirst]
  rw [if_neg (by omega), if_neg (by omega), if_neg (by omega), if_pos (by omega),
    Nat.add_sub_cancel_left, cut_append]

theorem split_long_list {b : Bytes} (rest : Bytes) (hlength : 55 < b.length)
    (short : b.length < 256 ^ 8) :
    split (UInt8.ofNat (0xC0 + 55 + (bigEndian b.length).length))
      (bigEndian b.length ++ (b ++ rest)) = .ok ⟨true, b, rest⟩ := by
  have hlo := Text.length_bigEndian_pos (show 0 < b.length by omega)
  have hhi := Text.length_bigEndian_le short
  have hfirst : (UInt8.ofNat (0xC0 + 55 + (bigEndian b.length).length)).toNat =
      0xF7 + (bigEndian b.length).length := by
    rw [UInt8.toNat_ofNat']
    omega
  unfold split
  simp only [hfirst]
  rw [if_neg (by omega), if_neg (by omega), if_neg (by omega), if_neg (by omega),
    Nat.add_sub_cancel_left, cutLength_append]
  simp only [if_neg (show ¬ b.length < 56 by omega),
    if_neg (show ¬ (b ++ rest).length < b.length by rw [List.length_append]; omega),
    List.take_left, List.drop_left]

theorem encodeBytes_single {x : UInt8} (h : x < 0x80) : encodeBytes [x] = [x] := if_pos h

theorem encodeBytes_headed {b : Bytes} (needed : ∀ x, b = [x] → 0x80 ≤ x) :
    encodeBytes b = header 0x80 b.length ++ b := by
  unfold encodeBytes
  split
  · next x =>
    have hx : ¬ x < 0x80 := UInt8.not_lt.2 (needed x rfl)
    rw [if_neg hx]
    rfl
  · rfl

/-! ## Items -/

theorem split_encode (i : Item) (rest : Bytes) (short : (encode i).length < 256 ^ 8) :
    ∃ b tail, encode i ++ rest = b :: tail ∧ split b tail = .ok (i.whole rest) := by
  cases i with
  | bytes b =>
    by_cases hsingle : ∃ x, b = [x] ∧ x < 0x80
    · -- A small byte is its own header.
      obtain ⟨x, rfl, hx⟩ := hsingle
      refine ⟨x, rest, ?_, ?_⟩
      · rw [encode, encodeBytes_single hx]
        rfl
      · have := UInt8.lt_iff_toNat_lt.1 hx
        unfold split
        simp only
        rw [if_pos (show x.toNat ≤ 0x7F from Nat.le_of_lt_succ this)]
        rfl
    · have needed : ∀ x, b = [x] → 0x80 ≤ x := fun x hb =>
        UInt8.not_lt.1 fun hx => hsingle ⟨x, hb, hx⟩
      rw [encode, encodeBytes_headed needed] at short ⊢
      rw [List.length_append] at short
      unfold header
      by_cases hlength : b.length ≤ 55
      · rw [if_pos hlength]
        exact ⟨_, _, rfl, split_short_bytes rest hlength needed⟩
      · rw [if_neg hlength]
        refine ⟨_, _, rfl, ?_⟩
        rw [List.append_eq, List.append_eq, List.append_assoc]
        exact split_long_bytes rest (by omega) (by omega)
  | list items =>
    rw [encode] at short ⊢
    rw [List.length_append] at short
    unfold header
    by_cases hlength : (encodeAll items).length ≤ 55
    · rw [if_pos hlength]
      exact ⟨_, _, rfl, split_short_list rest hlength⟩
    · rw [if_neg hlength]
      refine ⟨_, _, rfl, ?_⟩
      rw [List.append_eq, List.append_eq, List.append_assoc]
      exact split_long_list rest (by omega) (by omega)

theorem length_encodeAll_lt (items : List Item) :
    (encodeAll items).length < (encode (.list items)).length := by
  rw [encode, List.length_append]
  unfold header
  split <;> simp

theorem decodeAll_bytes {b rest : Bytes} {items : List Item}
    (short : (encode (.bytes b)).length < 256 ^ 8) (hrest : decodeAll rest = .ok items) :
    decodeAll (encode (.bytes b) ++ rest) = .ok (.bytes b :: items) := by
  obtain ⟨x, tail, heq, hsplit⟩ := split_encode (.bytes b) rest short
  rw [heq, decodeAll]
  split
  · next hs =>
    rw [hsplit] at hs
    cases hs
  · next s hs =>
    rw [hsplit] at hs
    cases hs
    simp only [Item.whole, hrest]

theorem decodeAll_list {inner items : List Item} {rest : Bytes}
    (short : (encode (.list inner)).length < 256 ^ 8)
    (hinner : decodeAll (encodeAll inner) = .ok inner) (hrest : decodeAll rest = .ok items) :
    decodeAll (encode (.list inner) ++ rest) = .ok (.list inner :: items) := by
  obtain ⟨x, tail, heq, hsplit⟩ := split_encode (.list inner) rest short
  rw [heq, decodeAll]
  split
  · next hs =>
    rw [hsplit] at hs
    cases hs
  · next s hs =>
    rw [hsplit] at hs
    cases hs
    simp only [Item.whole, hinner, hrest]

theorem decodeAll_nil : decodeAll [] = .ok [] := by
  rw [decodeAll]

/-- Items written one after the other are read as they were written. -/
theorem decodeAll_encodeAll : ∀ items : List Item, (encodeAll items).length < 256 ^ 8 →
    decodeAll (encodeAll items) = .ok items
  | [], _ => decodeAll_nil
  | .bytes b :: rest, short => by
    rw [encodeAll, List.length_append] at short
    rw [encodeAll]
    exact decodeAll_bytes (by omega) (decodeAll_encodeAll rest (by omega))
  | .list inner :: rest, short => by
    have := length_encodeAll_lt inner
    rw [encodeAll, List.length_append] at short
    rw [encodeAll]
    exact decodeAll_list (by omega) (decodeAll_encodeAll inner (by omega))
      (decodeAll_encodeAll rest (by omega))

theorem decode_pack {i : Item} {b : Bytes} (h : pack i = .ok b) : decode b = .ok i := by
  unfold pack at h
  split at h
  · next short =>
    cases h
    obtain ⟨x, tail, heq, hsplit⟩ := split_encode i [] (Nat.lt_of_lt_of_eq short (by decide))
    rw [List.append_nil] at heq
    rw [heq, decode, hsplit]
    cases i with
    | bytes b => rfl
    | list items =>
      have hshort := Nat.lt_trans (length_encodeAll_lt items) short
      simp only [Item.whole, if_true, decodeAll_encodeAll items (Nat.lt_of_lt_of_eq hshort (by decide))]
      rfl
  · cases h

end Rlp
end ContractVM
