/-
Why a frame fails. A cause says what happened in terms of the machine; its kind
decides what becomes of the gas, and the kind with the reason is what the host
gets to see.
-/
import ContractVM.Code.Syntax

namespace ContractVM

inductive FailureKind where
  | outOfGas
  | requireFailed
  | assertFailed
  | revertedExplicit
  | reentrancyBlocked
  | visibilityViolation
  | payableViolation
  | noSuchContract
  | deploymentError
  | invalidArguments
  | staticViolation
  | callDepthExceeded
  | insufficientBalance
deriving Repr, DecidableEq

namespace FailureKind

def name : FailureKind → String
  | outOfGas => "OutOfGas"
  | requireFailed => "RequireFailed"
  | assertFailed => "AssertFailed"
  | revertedExplicit => "RevertedExplicit"
  | reentrancyBlocked => "ReentrancyBlocked"
  | visibilityViolation => "VisibilityViolation"
  | payableViolation => "PayableViolation"
  | noSuchContract => "NoSuchContract"
  | deploymentError => "DeploymentError"
  | invalidArguments => "InvalidArguments"
  | staticViolation => "StaticViolation"
  | callDepthExceeded => "CallDepthExceeded"
  | insufficientBalance => "InsufficientBalance"

def all : List FailureKind :=
  [outOfGas, requireFailed, assertFailed, revertedExplicit, reentrancyBlocked,
    visibilityViolation, payableViolation, noSuchContract, deploymentError, invalidArguments,
    staticViolation, callDepthExceeded, insufficientBalance]

end FailureKind

/-- The report of a failure to whoever called. -/
structure Failure where
  kind : FailureKind
  reason : Option String
deriving Repr, DecidableEq

/-- The reason, unless it is missing or says nothing. -/
def Failure.said (f : Failure) : Option String := f.reason.filter (· ≠ "")

def Failure.message (f : Failure) : String :=
  match f.said with
  | some reason => f.kind.name ++ ": " ++ reason
  | none => f.kind.name

/-- What a call without a matching payable entry point was aimed at. -/
inductive Entry where
  | constructor (contract : String)
  | function (contract fn : String)
  | fallback (contract : String)
deriving Repr, DecidableEq

def Entry.name : Entry → String
  | .constructor contract => "constructor of " ++ contract
  | .function contract fn => contract ++ "." ++ fn
  | .fallback contract => "fallback of " ++ contract

inductive Cause where
  -- Gas and explicit failures
  | outOfGas (needed had : Int)
  | required (reason : String)
  | asserted
  | reverted (reason : String)
  -- Values
  | unboundArgument (name : String)
  | unboundLocal (name : String)
  | expected (type : ParamType)
  | underflow
  | overflow
  | divisionByZero
  | undeclaredEvent (event : String)
  | fieldNotSet (event field : String)
  | fieldMistyped (event field : String) (type : ParamType)
  | resultMistyped (fn : String) (type : ParamType)
  -- Entering a contract
  | alreadyEntered (address : Address)
  | notCallable (contract fn : String) (visibility : Visibility)
  | externalOnly (contract fn : String)
  | privateTo (fn owner : String)
  | noFunction (contract fn : String)
  | notPayable (entry : Entry)
  | noContract (address : Address)
  | missingArgument (name : String)
  | argumentMistyped (name : String) (type : ParamType)
  | unexpectedArguments (names : List String)
  -- Calls and transfers
  | callWhileConstructing
  | delegateWithValue
  | tooDeep (depth : Nat)
  | negativeTransfer (amount : Int)
  | insufficient (address : Address) (holds needs : Int)
  -- Protection against writes and reads
  | staticFrame (what : String)
  | writeForbidden (what : String) (mutability : Mutability)
  | readForbidden (what : String)
deriving Repr, DecidableEq

namespace Cause

def kind : Cause → FailureKind
  | outOfGas .. => .outOfGas
  | required _ => .requireFailed
  | reverted _ => .revertedExplicit
  | asserted | unboundArgument _ | unboundLocal _ | expected _ | underflow | overflow
  | divisionByZero | undeclaredEvent _ | fieldNotSet .. | fieldMistyped ..
  | resultMistyped .. => .assertFailed
  | alreadyEntered _ => .reentrancyBlocked
  | notCallable .. | externalOnly .. | privateTo .. | noFunction .. => .visibilityViolation
  | notPayable _ => .payableViolation
  | noContract _ => .noSuchContract
  | missingArgument _ | argumentMistyped .. | unexpectedArguments _ | delegateWithValue
  | negativeTransfer _ => .invalidArguments
  | callWhileConstructing => .deploymentError
  | tooDeep _ => .callDepthExceeded
  | insufficient .. => .insufficientBalance
  | staticFrame _ | writeForbidden .. | readForbidden _ => .staticViolation

def reason : Cause → Option String
  | outOfGas needed had => some s!"needed {needed}, had {had}"
  | required reason => some reason
  | asserted => none
  | reverted reason => some reason
  | unboundArgument name => some s!"unbound argument {name}"
  | unboundLocal name => some s!"unbound local {name}"
  | expected type => some ("expected " ++ type.name)
  | underflow => some "arithmetic underflow"
  | overflow => some "arithmetic overflow"
  | divisionByZero => some "division by zero"
  | undeclaredEvent event => some s!"undeclared event {event}"
  | fieldNotSet event field => some s!"{event}.{field} is not set"
  | fieldMistyped event field type => some (s!"{event}.{field} is not a " ++ type.name)
  | resultMistyped fn type => some (s!"{fn} must return " ++ type.name)
  | alreadyEntered address => some s!"{address} is already entered"
  | notCallable contract fn visibility => some (s!"{contract}.{fn} is " ++ visibility.name)
  | externalOnly contract fn => some s!"{contract}.{fn} is external"
  | privateTo fn owner => some s!"{fn} is private to {owner}"
  | noFunction contract fn =>
    some (contract ++ " has no function " ++ if fn = "" then "fallback" else fn)
  | notPayable entry => some (entry.name ++ " is not payable")
  | noContract address => some address
  | missingArgument name => some s!"missing argument {name}"
  | argumentMistyped name type => some (s!"argument {name} is not a " ++ type.name)
  | unexpectedArguments names => some ("unexpected argument " ++ ", ".intercalate names)
  | callWhileConstructing => some "external call during construction"
  | delegateWithValue => some "delegatecall cannot attach value"
  | tooDeep depth => some s!"depth {depth}"
  | negativeTransfer amount => some s!"negative transfer of {amount}"
  | insufficient address holds needs => some s!"{address} holds {holds}, needs {needs}"
  | staticFrame what => some s!"{what} inside a static call"
  | writeForbidden what mutability =>
    some (s!"{what} inside a " ++ mutability.name ++ " function")
  | readForbidden what => some s!"{what} inside a pure function"

def failure (c : Cause) : Failure := ⟨c.kind, c.reason⟩

end Cause
end ContractVM
