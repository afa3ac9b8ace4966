/-
Binding arguments to parameters. The names have to match exactly and every
value has to be of its parameter's type; the parameters are looked at in order,
and only then the names that are left over.

A few names are answered by every record of arguments with something that is
no value of any type, so a parameter of such a name is mistyped, never missing,
when it is not given.
-/
import ContractVM.Cause

namespace ContractVM

abbrev Args := Table Value

namespace Args

/-- The names that every record answers. -/
def reserved : List String :=
  ["constructor", "__defineGetter__", "__defineSetter__", "hasOwnProperty",
   "__lookupGetter__", "__lookupSetter__", "isPrototypeOf", "propertyIsEnumerable",
   "toString", "valueOf", "__proto__", "toLocaleString"]

/-- The reserved name under which code cannot set an argument. -/
def unsettable : String := "__proto__"

/-- The argument of one parameter. -/
def find (args : Args) (p : Param) : Except Cause Value :=
  match args.get? p.name with
  | some v => if Value.conforms p.type v then .ok v else .error (.argumentMistyped p.name p.type)
  | none =>
    if p.name ∈ reserved then .error (.argumentMistyped p.name p.type)
    else .error (.missingArgument p.name)

/-- The parameters in turn, each with its argument. -/
def findAll (args : Args) : List Param → Args → Except Cause Args
  | [], bound => .ok bound
  | p :: rest, bound =>
    match args.find p with
    | .ok v => findAll args rest (bound.set p.name v)
    | .error c => .error c

/-- What a body with the parameters `params` sees of `args`. -/
def bindTo (params : List Param) (args : Args) : Except Cause Args :=
  match args.findAll params ∅ with
  | .error c => .error c
  | .ok bound =>
    match args.keys.filter fun k => !bound.contains k with
    | [] => .ok bound
    | extra => .error (.unexpectedArguments extra)

/-- Every constructor of an inheritance chain with its own part of the
arguments. An argument that none of them takes is refused at the end. -/
def bindEach (chain : List (List Param)) (args : Args) : Except Cause (List Args) :=
  match chain.mapM fun params => args.findAll params ∅ with
  | .error c => .error c
  | .ok bound =>
    match args.keys.filter fun k => !chain.any fun params => params.any (·.name = k) with
    | [] => .ok bound
    | extra => .error (.unexpectedArguments extra)

end Args
end ContractVM
