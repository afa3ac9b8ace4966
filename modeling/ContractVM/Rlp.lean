/-
Recursive length-prefixed bytes: a byte string or a list of items, each behind
a header that gives its length.

A reader first splits the first item from the bytes after it (`split`) and only
then looks inside a list, so every step leaves a shorter input.
-/
import ContractVM.Text.Hex

namespace ContractVM
namespace Rlp

inductive Item where
  | bytes (b : Bytes)
  | list (items : List Item)
deriving Inhabited

/-! ## Writing -/

/-- Header of a payload of `n` bytes: `offset + n` up to 55 bytes, beyond that
`offset + 55` plus the size of the length, and the length. -/
def header (offset n : Nat) : Bytes :=
  if n ≤ 55 then [UInt8.ofNat (offset + n)]
  else UInt8.ofNat (offset + 55 + (Text.bigEndian n).length) :: Text.bigEndian n

/-- A byte string; a single byte below 0x80 stands for itself. -/
def encodeBytes : Bytes → Bytes
  | [b] => if b < 0x80 then [b] else [0x81, b]
  | bytes => header 0x80 bytes.length ++ bytes

mutual
def encode : Item → Bytes
  | .bytes b => encodeBytes b
  | .list items => header 0xC0 (encodeAll items).length ++ encodeAll items

/-- The items one after the other, without a header. -/
def encodeAll : List Item → Bytes
  | [] => []
  | i :: rest => encode i ++ encodeAll rest
end

/-! ## Reading -/

inductive Error where
  /-- An item of so many bytes has no header. -/
  | tooLong (length : Nat)
  /-- A header promises more bytes than there are. -/
  | outOfBounds
  /-- A single byte below 0x80 has a header. -/
  | needlessHeader
  | noLength
  /-- A length starts with a zero byte. -/
  | extraZeros
  /-- A string of at most 55 bytes has a long header. -/
  | shortString
  /-- A list of at most 55 bytes has a long header. -/
  | shortList
  | listTooLong
  /-- Bytes are left over after the outermost item. -/
  | remainder
deriving Repr, DecidableEq

def Error.message : Error → String
  | .tooLong length => s!"Invalid typed array length: {length}"
  | .outOfBounds => "invalid RLP (safeSlice): end slice of Uint8Array out-of-bounds"
  | .needlessHeader =>
    "invalid RLP encoding: invalid prefix, single byte < 0x80 are not prefixed"
  | .noLength => "invalid RLP: not enough bytes for string length"
  | .extraZeros => "invalid RLP: extra zeros"
  | .shortString => "invalid RLP: expected string length to be greater than 55"
  | .shortList => "invalid RLP: encoded list too short"
  | .listTooLong => "invalid RLP: total length is larger than the data"
  | .remainder => "invalid RLP: remainder must be zero"

/-- The bytes of one item, unless there are 2⁶⁴ of them or more: a header has
room for a length of eight bytes. -/
def pack (i : Item) : Except Error Bytes :=
  if (encode i).length < 18446744073709551616 then .ok (encode i)
  else .error (.tooLong (encode i).length)

/-- The first item of an input, unread inside, and the bytes after it. -/
structure Split where
  isList : Bool
  payload : Bytes
  rest : Bytes

/-- The first `n` bytes of `b` and the others. -/
def cut (n : Nat) (b : Bytes) : Except Error (Bytes × Bytes) :=
  if b.length < n then .error .outOfBounds else .ok (b.take n, b.drop n)

/-- A length of `n` bytes and the bytes after it. -/
def cutLength (n : Nat) (b : Bytes) : Except Error (Nat × Bytes) :=
  match cut n b with
  | .error e => .error e
  | .ok (length, rest) =>
    if length.head? = some 0 then .error .extraZeros else .ok (Text.natOfBytes length, rest)

/-- Split the item that starts with the byte `b`. -/
def split (b : UInt8) (tail : Bytes) : Except Error Split :=
  let n := b.toNat
  if n ≤ 0x7F then .ok ⟨false, [b], tail⟩
  else if n ≤ 0xB7 then
    match cut (n - 0x80) tail with
    | .error e => .error e
    | .ok (payload, rest) =>
      if n = 0x81 ∧ payload.head?.any (· < 0x80) then .error .needlessHeader
      else .ok ⟨false, payload, rest⟩
  else if n ≤ 0xBF then
    -- A long string needs a byte beside those of its length.
    if tail.length < n - 0xB6 then .error .noLength
    else
      match cutLength (n - 0xB7) tail with
      | .error e => .error e
      | .ok (length, rest) =>
        if length ≤ 55 then .error .shortString
        else match cut length rest with
          | .error e => .error e
          | .ok (payload, rest) => .ok ⟨false, payload, rest⟩
  else if n ≤ 0xF7 then
    match cut (n - 0xC0) tail with
    | .error e => .error e
    | .ok (payload, rest) => .ok ⟨true, payload, rest⟩
  else
    match cutLength (n - 0xF7) tail with
    | .error e => .error e
    | .ok (length, rest) =>
      if length < 56 then .error .shortList
      else if rest.length < length then .error .listTooLong
      else .ok ⟨true, rest.take length, rest.drop length⟩

theorem cut_length {n : Nat} {b : Bytes} {p : Bytes × Bytes} (h : cut n b = .ok p) :
    p.1.length ≤ b.length ∧ p.2.length ≤ b.length := by
  unfold cut at h
  split at h
  · cases h
  · cases h
    simp only [List.length_take, List.length_drop]
    omega

theorem cutLength_length {n : Nat} {b : Bytes} {p : Nat × Bytes} (h : cutLength n b = .ok p) :
    p.2.length ≤ b.length := by
  unfold cutLength at h
  split at h
  · cases h
  · next hc =>
    split at h
    · cases h
    · cases h
      exact (cut_length hc).2

theorem split_length {b : UInt8} {tail : Bytes} {s : Split} (h : split b tail = .ok s) :
    (s.isList = true → s.payload.length ≤ tail.length) ∧ s.rest.length ≤ tail.length := by
  unfold split at h
  simp only at h
  repeat' split at h
  all_goals first
    | (cases h; done)
    | (cases h
       have := @cut_length
       have := @cutLength_length
       constructor
       · intro hl
         first | (simp at hl; done) | skip
         all_goals grind [List.length_take]
       · grind [List.length_drop])

/-- Every item of an input, lists read through. -/
def decodeAll (input : Bytes) : Except Error (List Item) :=
  match input with
  | [] => .ok []
  | b :: tail =>
    match _hs : split b tail with
    | .error e => .error e
    | .ok s =>
      match _hl : s.isList with
      | false =>
        match decodeAll s.rest with
        | .error e => .error e
        | .ok items => .ok (.bytes s.payload :: items)
      | true =>
        match decodeAll s.payload with
        | .error e => .error e
        | .ok inner =>
          match decodeAll s.rest with
          | .error e => .error e
          | .ok items => .ok (.list inner :: items)
termination_by input.length
decreasing_by
  all_goals
    have hle := split_length _hs
    simp only [List.length_cons]
  · exact Nat.lt_succ_of_le hle.2
  · exact Nat.lt_succ_of_le (hle.1 _hl)
  · exact Nat.lt_succ_of_le hle.2

/-- The one item an input holds; no input at all is the empty byte string. -/
def decode : Bytes → Except Error Item
  | [] => .ok (.bytes [])
  | b :: tail =>
    match split b tail with
    | .error e => .error e
    | .ok s =>
      match if s.isList then (decodeAll s.payload).map .list else .ok (.bytes s.payload) with
      | .error e => .error e
      | .ok item => if s.rest.isEmpty then .ok item else .error .remainder

end Rlp
end ContractVM
