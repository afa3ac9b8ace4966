/-
Everything that can go wrong, by cause. A `Cause` ends a frame and is reported
to its caller; all other faults go to the host and undo the transaction they
arise in. `Fault.message` holds the wording.
-/
import ContractVM.Cause
import ContractVM.Frame.Phase
import ContractVM.Number
import ContractVM.Rlp

namespace ContractVM

/-! ## Misuse by the host -/

inductive Misuse where
  /-- A transaction with a negative value or gas limit. -/
  | negativeAmount (operation what : String) (amount : Int)
  | negativeFund
  | unknownContract (address : Address)
  | illegalTransition (before after : Phase)
  | adoptedByStranger
  | childActive
  | commitWithoutSnapshot
  | rollbackWithoutSnapshot
  | noSuchDepth (depth : Number)
  | outsideSnapshot
  | layersOpen (count : Nat)
  | whileOpen (operation : String)
  | stagedBelowTop
deriving Repr, DecidableEq

namespace Misuse

def message : Misuse → String
  | negativeAmount operation what amount => s!"{operation} with negative {what} {amount}"
  | negativeFund => "cannot fund a negative amount"
  | unknownContract address => s!"cannot terminate unknown contract {address}"
  | illegalTransition before after =>
    "illegal frame transition " ++ before.name ++ " -> " ++ after.name
  | adoptedByStranger => "frame adopted by a non-parent"
  | childActive => "frame already has an active child"
  | commitWithoutSnapshot => "commit without snapshot"
  | rollbackWithoutSnapshot => "rollback without snapshot"
  | noSuchDepth depth => "cannot roll back to depth " ++ depth.text
  | outsideSnapshot => "storage mutation outside of a snapshot"
  | layersOpen count => s!"staged delta needs one open layer, found {count}"
  | whileOpen operation => s!"{operation} while a frame is open"
  | stagedBelowTop => "only a top-level frame has staged events"

def code : Misuse → String
  | negativeAmount .. => FailureKind.invalidArguments.name
  | unknownContract _ => FailureKind.noSuchContract.name
  | _ => "ENGINE"

end Misuse

/-! ## Refused deployments -/

/-- An event has at most this many indexed fields. -/
def maxIndexedFields : Nat := 3

inductive Refusal where
  | declaredTwice (contract fn : String)
  | overridesUnmarked (contract fn owner : String)
  | overridesNothing (contract fn : String)
  | tooManyIndexed (event : String) (count : Nat)
  | twoShapes (event : String)
  | undeclaredEvent (event : String)
  | fieldsDiffer (event wanted : String)
  | unknownFunction (fn : String)
  | addressTaken (address : Address)
  | constructorFailed (contract : String) (failure : Failure)
deriving Repr, DecidableEq

namespace Refusal

def message : Refusal → String
  | declaredTwice contract fn => s!"{contract}.{fn} is declared twice"
  | overridesUnmarked contract fn owner =>
    s!"{contract}.{fn} overrides {owner}.{fn} without virtual/override"
  | overridesNothing contract fn => s!"{contract}.{fn} overrides nothing"
  | tooManyIndexed event count =>
    s!"event {event} marks {count} fields indexed (max {maxIndexedFields})"
  | twoShapes event => s!"event {event} is declared with two shapes"
  | undeclaredEvent event => s!"emit of undeclared event {event}"
  | fieldsDiffer event wanted => s!"emit {event} must set exactly {wanted}"
  | unknownFunction fn => s!"invoke of unknown function {fn}"
  | addressTaken address => s!"address {address} is already taken"
  | constructorFailed contract failure =>
    s!"constructor of {contract} failed: " ++ failure.kind.name ++
      match failure.said with
      | some reason => s!" ({reason})"
      | none => ""

/-- The failure of the constructor, if it was the constructor that failed. -/
def failure? : Refusal → Option Failure
  | constructorFailed _ failure => some failure
  | _ => none

/-- The failure a receipt shows. -/
def report (r : Refusal) : Failure := r.failure?.getD ⟨.deploymentError, some r.message⟩

end Refusal

/-! ## Event queries and stored bytes -/

/-- Why a filter on event fields is refused. -/
inductive FilterError where
  | noEvent
  | unknownEvent (event : String)
  | noField (event field : String)
  | notIndexed (event field : String)
deriving Repr, DecidableEq

def FilterError.message : FilterError → String
  | .noEvent => "filtering on fields requires an event name"
  | .unknownEvent event => s!"unknown event {event}"
  | .noField event field => s!"{event} has no field {field}"
  | .notIndexed event field => s!"{event}.{field} is not indexed"

/-- Items that do not have the shape of a journal entry. -/
inductive ShapeError where
  | notBytes
  | notList
  | unknownTag
deriving Repr, DecidableEq

def ShapeError.message : ShapeError → String
  | .notBytes => "rlp: expected a byte string"
  | .notList => "rlp: expected a list"
  | .unknownTag => "rlp: unknown value tag"

/-! ## All faults -/

inductive Fault where
  /-- A frame failed; `propagated` if a callee of it did. -/
  | raised (cause : Cause) (propagated : Bool)
  | misuse (m : Misuse)
  | refused (r : Refusal)
  | filter (e : FilterError)
  | settings (issues : List String)
  | hex (e : Text.HexError)
  | rlp (e : Rlp.Error)
  | shape (e : ShapeError)
  | notAnAddress (text : String)
  | negativeBudget
  | negativeNonce
  | notIntegral (n : Number)
  /-- A depth that lies between two layers, or is no number. -/
  | brokenDepth
  /-- A body ran deeper than its gas could pay for, which no body does. -/
  | exhausted
deriving DecidableEq

def Fault.message : Fault → String
  | .raised cause _ => cause.failure.message
  | .misuse m => m.message
  | .refused r => r.message
  | .filter e => e.message
  | .settings issues => "invalid configuration: " ++ ", ".intercalate issues
  | .hex e => e.message
  | .rlp e => e.message
  | .shape e => e.message
  | .notAnAddress text => s!"not an address: {text}"
  | .negativeBudget => "negative gas budget"
  | .negativeNonce => "Invalid integer as argument, must be unsigned!"
  | .notIntegral n =>
    "The number " ++ n.text ++ " cannot be converted to a BigInt because it is not an integer"
  | .brokenDepth => "Invalid array length"
  | .exhausted => "nesting exceeds what gas can pay for"

end ContractVM
