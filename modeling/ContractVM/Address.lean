/-
Account addresses. An address is written as `0x` and forty lower-case
hexadecimal digits. Most operations take any text in the place of an address
and only its conversion to bytes is strict, so the type is plain text and
well-formedness is a predicate.
-/
import ContractVM.Text.Hex

namespace ContractVM

abbrev Address := String

namespace Address

def isLowerHex (c : Char) : Bool := c.isDigit || (decide ('a' ≤ c) && decide (c ≤ 'f'))

def isValid (s : String) : Bool :=
  match s.toList with
  | '0' :: 'x' :: digits => decide (digits.length = 40) && digits.all isLowerHex
  | _ => false

/-- The address a text gives when its letters are made lower-case. -/
def ofText? (s : String) : Option Address :=
  if isValid s.toLower then some s.toLower else none

def zero : Address := "0x0000000000000000000000000000000000000000"

/-- The bytes of an address: its digits after the first two units, which are
dropped unread. -/
def toBytes (a : Address) : Except Text.HexError Bytes :=
  Text.readHex ((Text.units a).drop 2)

/-- The address with the given bytes, of which there must be twenty. -/
def ofBytes? (b : Bytes) : Option Address := ofText? (Text.hex0x b)

end Address
end ContractVM
