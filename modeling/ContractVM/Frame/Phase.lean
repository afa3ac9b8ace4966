/-
The life of a frame: it binds its arguments, executes, and ends by committing
or reverting. A frame that has begun to commit cannot revert any more.
-/

namespace ContractVM

inductive Phase where
  | pending
  | binding
  | executing
  | committing
  | reverting
  | done
deriving Repr, DecidableEq

namespace Phase

def name : Phase → String
  | pending => "Pending"
  | binding => "Binding"
  | executing => "Executing"
  | committing => "Committing"
  | reverting => "Reverting"
  | done => "Done"

def all : List Phase := [pending, binding, executing, committing, reverting, done]

/-- The phases that may follow. -/
def following : Phase → List Phase
  | pending => [binding]
  | binding => [executing, reverting]
  | executing => [committing, reverting]
  | committing => [done]
  | reverting => [done]
  | done => []

end Phase

/-- How a frame ended. -/
inductive Ending where
  | committed
  | reverted
deriving Repr, DecidableEq

def Ending.name : Ending → String
  | .committed => "Committed"
  | .reverted => "Reverted"

end ContractVM
