/-
Events as they are emitted and as they are logged.
-/
import ContractVM.Number
import ContractVM.Value

namespace ContractVM

/-- A field with its value; only an indexed one can be searched for. -/
structure LoggedField where
  name : String
  value : Value
  indexed : Bool
deriving Repr, DecidableEq

structure Event where
  address : Address
  name : String
  fields : List LoggedField
deriving Repr, DecidableEq

/-- An event with its place in the log. -/
structure LoggedEvent extends Event where
  logIndex : Number
deriving DecidableEq

end ContractVM
