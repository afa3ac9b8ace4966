/-
What the operators compute. Results of addition, subtraction and multiplication
have to fit 256 bits; operands are taken as they are, negative ones included.
The order of the checks shows when both operands are at fault: a division looks
at its divisor first, and the connectives look at their second operand only if
the first one leaves the answer open.
-/
import ContractVM.Cause

namespace ContractVM

namespace Value

def asUint : Value → Except Cause Int
  | .int n => .ok n
  | _ => .error (.expected .uint256)

def asBool : Value → Except Cause Bool
  | .bool b => .ok b
  | _ => .error (.expected .bool)

def asAddress : Value → Except Cause Address
  | .text s => if Address.isValid s then .ok s else .error (.expected .address)
  | _ => .error (.expected .address)

end Value

namespace Operator

/-- A result that has to fit 256 bits. -/
def inRange (n : Int) : Except Cause Value :=
  if n < 0 then .error .underflow
  else if Value.maxUint256 < n then .error .overflow
  else .ok (.int n)

/-- Both operands as integers, the left one first. -/
def ints (l r : Value) : Except Cause (Int × Int) :=
  match l.asUint with
  | .error c => .error c
  | .ok a =>
    match r.asUint with
    | .error c => .error c
    | .ok b => .ok (a, b)

/-- A division by `r`, which is looked at before the dividend. -/
def divided (f : Int → Int → Int) (l r : Value) : Except Cause Value :=
  match r.asUint with
  | .error c => .error c
  | .ok d =>
    if d = 0 then .error .divisionByZero
    else match l.asUint with
      | .error c => .error c
      | .ok n => .ok (.int (f n d))

/-- A comparison of integers. -/
def compared (f : Int → Int → Bool) (l r : Value) : Except Cause Value :=
  (ints l r).map fun p => .bool (f p.1 p.2)

/-- A connective whose answer is `settled` as soon as its first operand is. -/
def connected (settled : Bool) (l r : Value) : Except Cause Value :=
  match l.asBool with
  | .error c => .error c
  | .ok b => if b = settled then .ok (.bool settled) else r.asBool.map .bool

/-- Quotients are rounded toward zero and a remainder has the sign of the
dividend. -/
def apply : Operator → Value → Value → Except Cause Value
  | add, l, r => (ints l r).bind fun p => inRange (p.1 + p.2)
  | sub, l, r => (ints l r).bind fun p => inRange (p.1 - p.2)
  | mul, l, r => (ints l r).bind fun p => inRange (p.1 * p.2)
  | div, l, r => divided Int.tdiv l r
  | mod, l, r => divided Int.tmod l r
  | eq, l, r => .ok (.bool (decide (l = r)))
  | neq, l, r => .ok (.bool (decide (l ≠ r)))
  | lt, l, r => compared (fun a b => decide (a < b)) l r
  | lte, l, r => compared (fun a b => decide (a ≤ b)) l r
  | gt, l, r => compared (fun a b => decide (b < a)) l r
  | gte, l, r => compared (fun a b => decide (b ≤ a)) l r
  | and, l, r => connected false l r
  | or, l, r => connected true l r

end Operator
end ContractVM
