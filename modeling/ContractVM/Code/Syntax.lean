/-
Contract code. Expressions compute a value and cannot change anything;
instructions act. A contract is a set of functions with an optional
constructor and fallback, on top of the contracts it inherits from.

Optional parts stay optional here, so that a program can be shown as it was
written.
-/
import ContractVM.Table
import ContractVM.Value

namespace ContractVM

/-! ## Expressions -/

/-- What code can ask about its surroundings. -/
inductive EnvField where
  | sender
  | origin
  | value
  | self
  | timestamp
  | blockNumber
  | gasLeft
deriving Repr, DecidableEq

namespace EnvField

def name : EnvField → String
  | sender => "sender"
  | origin => "origin"
  | value => "value"
  | self => "self"
  | timestamp => "timestamp"
  | blockNumber => "blockNumber"
  | gasLeft => "gasLeft"

def all : List EnvField := [sender, origin, value, self, timestamp, blockNumber, gasLeft]

end EnvField

inductive Operator where
  | add | sub | mul | div | mod
  | eq | neq | lt | lte | gt | gte
  | and | or
deriving Repr, DecidableEq

namespace Operator

def name : Operator → String
  | add => "add" | sub => "sub" | mul => "mul" | div => "div" | mod => "mod"
  | eq => "eq" | neq => "neq" | lt => "lt" | lte => "lte" | gt => "gt" | gte => "gte"
  | and => "and" | or => "or"

def all : List Operator := [add, sub, mul, div, mod, eq, neq, lt, lte, gt, gte, and, or]

end Operator

inductive Expr where
  | const (value : Value)
  | arg (name : String)
  | local (name : String)
  | env (field : EnvField)
  | balance (of : Expr)
  /-- The key of a mapping entry. -/
  | slot (base : String) (keys : List Expr)
  | sload (key : Expr)
  | bin (op : Operator) (left right : Expr)
  | not (arg : Expr)
deriving Inhabited

/-! ## Instructions -/

inductive CallKind where
  | call
  /-- Foreign code on the caller's own storage. -/
  | delegate
deriving Repr, DecidableEq

/-- A call of another contract. -/
structure CallSpec where
  kind : CallKind
  target : Expr
  /-- The empty name selects the fallback, or a plain transfer of value. -/
  fn : String
  args : Option (Table Expr) := none
  value : Option Expr := none
  gas : Option Expr := none
  /-- Whether a failure of the callee ends in `success` instead of going on. -/
  caught : Option Bool := none
  success : Option String := none
  result : Option String := none

inductive Instr where
  | bind (name : String) (value : Expr)
  | sstore (key value : Expr)
  | require (cond : Expr) (reason : String)
  | assert (cond : Expr)
  | revert (reason : String)
  | emit (event : String) (args : Table Expr)
  | call (spec : CallSpec)
  | invoke (fn : String) (args : Option (Table Expr)) (result : Option String)
  | branch (cond : Expr) (yes : List Instr) (no : Option (List Instr))
  | ret (value : Expr)
  | selfDestruct (beneficiary : Expr)

/-! ## Contracts -/

inductive Visibility where
  | external
  | «public»
  | internal
  | «private»
deriving Repr, DecidableEq

namespace Visibility

def name : Visibility → String
  | external => "external"
  | «public» => "public"
  | internal => "internal"
  | «private» => "private"

def all : List Visibility := [external, «public», internal, «private»]

end Visibility

inductive Mutability where
  | view
  | pure
  | payable
  | mutating
deriving Repr, DecidableEq

namespace Mutability

def name : Mutability → String
  | view => "view"
  | pure => "pure"
  | payable => "payable"
  | mutating => "mutating"

def all : List Mutability := [view, pure, payable, mutating]

/-- How much a function may do: `pure` computes, `view` also reads, the others
also write. -/
def rank : Mutability → Nat
  | pure => 0
  | view => 1
  | mutating => 2
  | payable => 2

/-- The stricter of two; the second on a tie. -/
def narrower (outer inner : Mutability) : Mutability :=
  if outer.rank < inner.rank then outer else inner

theorem rank_narrower (a b : Mutability) : (narrower a b).rank = min a.rank b.rank := by
  cases a <;> cases b <;> rfl

end Mutability

structure Param where
  name : String
  type : ParamType
deriving Repr, DecidableEq

structure FunctionDef where
  name : String
  params : List Param := []
  returns : Option ParamType := none
  visibility : Visibility
  mutability : Mutability
  nonReentrant : Bool := false
  isVirtual : Bool := false
  isOverride : Bool := false
  body : List Instr

structure ConstructorDef where
  params : List Param := []
  payable : Bool := false
  body : List Instr

structure FallbackDef where
  payable : Bool := false
  nonReentrant : Bool := false
  body : List Instr

structure EventField where
  name : String
  type : ParamType
  indexed : Option Bool := none
deriving Repr, DecidableEq

/-- A field is indexed only if its declaration says so. -/
def EventField.isIndexed (f : EventField) : Bool := f.indexed.getD false

structure EventDecl where
  name : String
  fields : List EventField
deriving Repr, DecidableEq

structure ContractCode where
  name : String
  bases : List ContractCode := []
  constr : Option ConstructorDef := none
  fallback : Option FallbackDef := none
  functions : List FunctionDef
  events : List EventDecl := []

end ContractVM
