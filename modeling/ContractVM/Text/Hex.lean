/-
Bytes, their hexadecimal text and the numbers they spell.

Reading is by pairs of units, and of several faults the first pair is reported.
A number becomes bytes without leading zeros; only natural numbers have bytes,
and the error for a negative one is the one its written form would give.
-/
import ContractVM.Text.Units

namespace ContractVM

abbrev Bytes := List UInt8

namespace Text

inductive HexError where
  /-- The text has an odd number of units. -/
  | oddLength (length : Nat)
  | notHex (pair : String) (index : Nat)
deriving Repr, DecidableEq

def HexError.message : HexError → String
  | .oddLength n => s!"hex string expected, got unpadded hex of length {n}"
  | .notHex pair i => "hex string expected, got non-hex character \"" ++ pair ++
      "\" at index " ++ toString i

/-- The digit of a value below 16. -/
def hexDigit (n : Nat) : Char :=
  if n < 10 then Char.ofNat (48 + n) else Char.ofNat (87 + n)

/-- The value of a hexadecimal digit given as a unit; both cases count. -/
def hexValue? (u : Nat) : Option Nat :=
  if 48 ≤ u ∧ u ≤ 57 then some (u - 48)
  else if 97 ≤ u ∧ u ≤ 102 then some (u - 87)
  else if 65 ≤ u ∧ u ≤ 70 then some (u - 55)
  else none

/-- Two lower-case digits a byte. -/
def hex (b : Bytes) : String :=
  String.ofList (b.flatMap fun x => [hexDigit (x.toNat / 16), hexDigit (x.toNat % 16)])

/-- Bytes as lower-case digits behind `0x`. -/
def hex0x (b : Bytes) : String := "0x" ++ hex b

def readPairs (index : Nat) : List Nat → Except HexError Bytes
  | u :: v :: rest =>
    match hexValue? u, hexValue? v with
    | some x, some y =>
      match readPairs (index + 2) rest with
      | .ok bytes => .ok (UInt8.ofNat (16 * x + y) :: bytes)
      | .error e => .error e
    | _, _ => .error (.notHex (ofUnits [u, v]) index)
  | _ => .ok []

def readHex (us : List Nat) : Except HexError Bytes :=
  if us.length % 2 = 1 then .error (.oddLength us.length) else readPairs 0 us

/-! ## Numbers as bytes -/

/-- The bytes of `n`, most significant first, without leading zeros. -/
def bigEndian (n : Nat) : Bytes :=
  if n = 0 then [] else bigEndian (n / 256) ++ [UInt8.ofNat (n % 256)]
termination_by n
decreasing_by omega

/-- The number that bytes spell, most significant first. -/
def natOfBytes (b : Bytes) : Nat := b.foldl (fun n x => n * 256 + x.toNat) 0

theorem bigEndian_zero : bigEndian 0 = [] := by
  rw [bigEndian]; simp

theorem natOfBytes_append (a : Bytes) (x : UInt8) :
    natOfBytes (a ++ [x]) = natOfBytes a * 256 + x.toNat := by
  simp [natOfBytes]

theorem natOfBytes_bigEndian (n : Nat) : natOfBytes (bigEndian n) = n := by
  induction n using Nat.strongRecOn with
  | ind n ih =>
    rw [bigEndian]
    split
    · next h => simp [h, natOfBytes]
    · next h =>
      rw [natOfBytes_append, ih (n / 256) (by omega), UInt8.toNat_ofNat']
      omega

/-- The bytes of an integer. A negative one is written with its sign, which is
no digit: the pair at fault is the sign and a digit, or the zero that pads an
odd length and the sign. -/
def intBytes : Int → Except HexError Bytes
  | .ofNat n => .ok (bigEndian n)
  | .negSucc m =>
    let digits := Nat.toDigits 16 (m + 1)
    let padded := if digits.length % 2 = 0 then '0' :: '-' :: digits else '-' :: digits
    .error (.notHex (String.ofList (padded.take 2)) 0)

end Text
end ContractVM
