/-
Short forms for writing contract code.
-/
import ContractVM.Code.Syntax

namespace ContractVM
namespace Build

/-! ## Expressions -/

def lit (v : Value) : Expr := .const v

def sender : Expr := .env .sender

def self : Expr := .env .self

def msgValue : Expr := .env .value

/-- A storage key may be given as plain text. -/
def storageKey : String ⊕ Expr → Expr
  | .inl s => lit (.text s)
  | .inr e => e

def sload (key : String ⊕ Expr) : Expr := .sload (storageKey key)

/-! ## Instructions -/

def sstore (key : String ⊕ Expr) (v : Expr) : Instr := .sstore (storageKey key) v

/-- An invocation always lists its arguments, even if there are none. -/
def invoke (fn : String) (args : Table Expr := ∅) (result : Option String := none) : Instr :=
  .invoke fn (some args) result

/-- The parts of a call that may be left out. -/
structure CallOptions where
  args : Option (Table Expr) := none
  value : Option Expr := none
  gas : Option Expr := none
  caught : Option Bool := none
  success : Option String := none
  result : Option String := none

/-- A failure of the callee goes on to the caller. -/
def call (target : Expr) (fn : String) (o : CallOptions := {}) : Instr :=
  .call { o with kind := .call, target := target, fn := fn }

/-- A failure of the callee ends in the local `ok`, unless another name is
given. -/
def tryCall (target : Expr) (fn : String) (o : CallOptions := {}) : Instr :=
  .call { o with
    kind := .call
    target := target
    fn := fn
    caught := o.caught.or (some true)
    success := o.success.or (some "ok") }

/-- The code of another contract on the storage at hand. -/
def delegateCall (target : Expr) (fn : String) (o : CallOptions := {}) : Instr :=
  .call { o with kind := .delegate, target := target, fn := fn }

end Build
end ContractVM
