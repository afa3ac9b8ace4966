/-
Values of contract code: integers, truth values and text. Integers are
unbounded while they are computed; a parameter type says which values may cross
the border of a function. Text is well-formed: what a host gives in units is read
as text first (`Text.ofUnits`), and a surrogate without its partner becomes U+FFFD.
-/
import ContractVM.Address

namespace ContractVM

inductive Value where
  | int (n : Int)
  | bool (b : Bool)
  | text (s : String)
deriving Repr, DecidableEq, Inhabited

/-- Types of parameters, results and event fields. -/
inductive ParamType where
  | uint256
  | bool
  | address
  | string
deriving Repr, DecidableEq

namespace ParamType

def name : ParamType → String
  | uint256 => "uint256"
  | bool => "bool"
  | address => "address"
  | string => "string"

def all : List ParamType := [uint256, bool, address, string]

end ParamType

namespace Value

/-- The largest number of 256 bits. -/
def maxUint256 : Int := Int.ofNat (1 <<< 256 - 1)

def conforms : ParamType → Value → Bool
  | .uint256, .int n => decide (0 ≤ n) && decide (n ≤ maxUint256)
  | .bool, .bool _ => true
  | .address, .text s => Address.isValid s
  | .string, .text _ => true
  | _, _ => false

/-- The value a function of this type returns when its body returns none. -/
def default : ParamType → Value
  | .uint256 => .int 0
  | .bool => .bool false
  | .address => .text Address.zero
  | .string => .text ""

theorem conforms_default (t : ParamType) : conforms t (default t) = true := by
  cases t <;> decide

/-- A value as part of a storage key: text as it is, the others as written. -/
def keyText : Value → String
  | .int n => toString n
  | .bool b => if b then "true" else "false"
  | .text s => s

/-- The key of a mapping entry: every index in brackets after the base. -/
def slotKey (base : String) (keys : List Value) : String :=
  keys.foldl (fun acc k => acc ++ "[" ++ k.keyText ++ "]") base

end Value
end ContractVM
