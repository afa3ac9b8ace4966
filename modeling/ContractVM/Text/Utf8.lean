/-
UTF-8. Writing is plain, and units that are no text are written as the text they
read as; reading accepts any bytes: one byte-order mark in front is dropped, and
every maximal start of a character that does not go on as it should reads as one
U+FFFD.
-/
import ContractVM.Text.Hex

namespace ContractVM
namespace Text

def utf8 (s : String) : Bytes := s.toList.flatMap String.utf8EncodeChar

/-- The bytes of what is given in units. A surrogate without its partner has none
of its own and is written as U+FFFD. -/
def utf8OfUnits (us : List Nat) : Bytes := utf8 (ofUnits us)

/-- Whether `b` continues a character, given the bounds for this place. -/
def continues (lo hi : UInt8) (b : UInt8) : Bool := decide (lo ≤ b) && decide (b ≤ hi)

/-- The bounds of the second byte after the first byte of a three-byte
character: no overlong form and no surrogate. -/
def bounds3 (b : UInt8) : UInt8 × UInt8 :=
  if b = 0xE0 then (0xA0, 0xBF) else if b = 0xED then (0x80, 0x9F) else (0x80, 0xBF)

/-- The bounds of the second byte after the first byte of a four-byte
character: no overlong form and nothing above U+10FFFF. -/
def bounds4 (b : UInt8) : UInt8 × UInt8 :=
  if b = 0xF0 then (0x90, 0xBF) else if b = 0xF4 then (0x80, 0x8F) else (0x80, 0xBF)

/-- The last six bits of a continuation byte. -/
def low6 (b : UInt8) : Nat := b.toNat % 64

/-- Read one character that starts with `b`, and give what follows it. -/
def readChar (b : UInt8) (rest : Bytes) : Char × Bytes :=
  if b < 0x80 then (Char.ofNat b.toNat, rest)
  else if 0xC2 ≤ b ∧ b ≤ 0xDF then
    match rest with
    | c :: rest' =>
      if continues 0x80 0xBF c then (Char.ofNat (b.toNat % 32 * 64 + low6 c), rest')
      else ('\uFFFD', rest)
    | [] => ('\uFFFD', rest)
  else if 0xE0 ≤ b ∧ b ≤ 0xEF then
    match rest with
    | c :: rest' =>
      if continues (bounds3 b).1 (bounds3 b).2 c then
        match rest' with
        | d :: rest'' =>
          if continues 0x80 0xBF d then
            (Char.ofNat (b.toNat % 16 * 4096 + low6 c * 64 + low6 d), rest'')
          else ('\uFFFD', rest')
        | [] => ('\uFFFD', rest')
      else ('\uFFFD', rest)
    | [] => ('\uFFFD', rest)
  else if 0xF0 ≤ b ∧ b ≤ 0xF4 then
    match rest with
    | c :: rest' =>
      if continues (bounds4 b).1 (bounds4 b).2 c then
        match rest' with
        | d :: rest'' =>
          if continues 0x80 0xBF d then
            match rest'' with
            | e :: rest''' =>
              if continues 0x80 0xBF e then
                (Char.ofNat (b.toNat % 8 * 262144 + low6 c * 4096 + low6 d * 64 + low6 e),
                  rest''')
              else ('\uFFFD', rest'')
            | [] => ('\uFFFD', rest'')
          else ('\uFFFD', rest')
        | [] => ('\uFFFD', rest')
      else ('\uFFFD', rest)
    | [] => ('\uFFFD', rest)
  else ('\uFFFD', rest)

theorem readChar_length_le (b : UInt8) (rest : Bytes) :
    (readChar b rest).2.length ≤ rest.length := by
  unfold readChar
  repeat' split
  all_goals simp_all only [List.length_cons, List.length_nil]
  all_goals omega

def readChars : Bytes → List Char
  | [] => []
  | b :: rest => (readChar b rest).1 :: readChars (readChar b rest).2
termination_by b => b.length
decreasing_by
  have := readChar_length_le b rest
  simp only [List.length_cons]
  omega

/-- The text of any bytes. -/
def ofUtf8 : Bytes → String
  | 0xEF :: 0xBB :: 0xBF :: rest => String.ofList (readChars rest)
  | bytes => String.ofList (readChars bytes)

end Text
end ContractVM
