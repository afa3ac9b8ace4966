/-
A contract as it is deployed: the inheritance chain is gone, and every
function, constructor and fallback knows the contract it was defined in.
-/
import ContractVM.Code.Syntax

namespace ContractVM

/-- A definition and the name of the contract it was written in. -/
structure Owned (α : Type) where
  owner : String
  item : α

structure Contract where
  address : Address
  name : String
  /-- Dispatch table by name. -/
  functions : Table (Owned FunctionDef)
  events : Table EventDecl
  /-- The constructors of the chain, bases first. -/
  inits : List (Owned ConstructorDef)
  fallback : Option (Owned FallbackDef)

namespace Contract

/-- The function a call by name lands on; the empty name is never one. -/
def function? (c : Contract) (fn : String) : Option (Owned FunctionDef) :=
  if fn = "" then none else c.functions.get? fn

/-- Whether the entry point of a call carries a reentrancy lock. -/
def isGuarded (c : Contract) (fn : String) : Bool :=
  match c.function? fn with
  | some f => f.item.nonReentrant
  | none => c.fallback.any (·.item.nonReentrant)

end Contract
end ContractVM
