/-
Flattening: from contract code with bases to one deployed contract, or the
first reason to refuse it.

The chain lists every contract of the inheritance tree once, bases before
what is built on them. Functions and events are gathered along the chain, and
last all bodies that survived are checked against what was gathered.
-/
import ContractVM.Contract.Basic
import ContractVM.Fault
import ContractVM.Text.Units

namespace ContractVM

/-! ## The chain -/

mutual
/-- The contracts of the tree under a contract that are not in `seen`, bases
first, and all names met so far. -/
def ContractCode.lineage (seen : List String) :
    ContractCode → List ContractCode × List String
  | code@⟨name, bases, _, _, _, _⟩ =>
    if name ∈ seen then ([], seen)
    else
      let below := lineages (name :: seen) bases
      (below.1 ++ [code], below.2)

def ContractCode.lineages (seen : List String) :
    List ContractCode → List ContractCode × List String
  | [] => ([], seen)
  | code :: rest =>
    let first := code.lineage seen
    let others := lineages first.2 rest
    (first.1 ++ others.1, others.2)
end

def ContractCode.chain (code : ContractCode) : List ContractCode := (code.lineage []).1

/-! ## Gathering along the chain -/

namespace Contract

/-- Enter one function. A name met before needs a function marked virtual and
a new one marked override, from another contract. -/
def addFunction (owner : String) (table : Table (Owned FunctionDef)) (fn : FunctionDef) :
    Except Refusal (Table (Owned FunctionDef)) :=
  match table.get? fn.name with
  | none =>
    if fn.isOverride then .error (.overridesNothing owner fn.name)
    else .ok (table.set fn.name ⟨owner, fn⟩)
  | some prior =>
    if prior.owner = owner then .error (.declaredTwice owner fn.name)
    else if prior.item.isVirtual && fn.isOverride then .ok (table.set fn.name ⟨owner, fn⟩)
    else .error (.overridesUnmarked owner fn.name prior.owner)

/-- Names, types and indexing of the fields agree one by one. -/
def sameShape (a b : EventDecl) : Bool :=
  decide (a.fields.map (fun f => (f.name, f.type, f.isIndexed)) =
    b.fields.map (fun f => (f.name, f.type, f.isIndexed)))

/-- Enter one event. A name may be declared again only with the same shape. -/
def addEvent (table : Table EventDecl) (event : EventDecl) : Except Refusal (Table EventDecl) :=
  let indexed := (event.fields.filter (·.isIndexed)).length
  if maxIndexedFields < indexed then .error (.tooManyIndexed event.name indexed)
  else match table.get? event.name with
    | none => .ok (table.set event.name event)
    | some prior =>
      if sameShape prior event then .ok (table.set event.name event)
      else .error (.twoShapes event.name)

/-- Enter everything one contract of the chain declares. -/
def addCode (c : Contract) (code : ContractCode) : Except Refusal Contract :=
  match code.functions.foldlM (addFunction code.name) c.functions with
  | .error r => .error r
  | .ok functions =>
    match code.events.foldlM addEvent c.events with
    | .error r => .error r
    | .ok events => .ok { c with
        functions := functions
        events := events
        inits := c.inits ++ (code.constr.map (⟨code.name, ·⟩)).toList
        fallback := (code.fallback.map (⟨code.name, ·⟩)).or c.fallback }

/-! ## Checking the bodies -/

mutual
/-- An instruction and those nested in it, in the order written. -/
def walkInstr : Instr → List Instr
  | i@(.branch _ yes no) => i :: (walk yes ++ walkElse no)
  | i => [i]

def walk : List Instr → List Instr
  | [] => []
  | i :: rest => walkInstr i ++ walk rest

def walkElse : Option (List Instr) → List Instr
  | none => []
  | some body => walk body
end

/-- Names sorted and joined by commas, the form in which they are compared. -/
def signature (names : List String) : String := ",".intercalate (Text.sort names)

/-- An emit sets the fields of a declared event and an invoke names a function
of the table. -/
def checkInstr (c : Contract) : Instr → Except Refusal Unit
  | .emit event args =>
    match c.events.get? event with
    | none => .error (.undeclaredEvent event)
    | some decl =>
      let wanted := signature (decl.fields.map (·.name))
      if signature args.keys = wanted then .ok () else .error (.fieldsDiffer event wanted)
  | .invoke fn _ _ =>
    if c.functions.contains fn then .ok () else .error (.unknownFunction fn)
  | _ => .ok ()

/-- The bodies that can run: all functions, then all constructors, then the
fallback. -/
def bodies (c : Contract) : List (List Instr) :=
  c.functions.values.map (·.item.body) ++ c.inits.map (·.item.body) ++
    (c.fallback.map (·.item.body)).toList

def check (c : Contract) : Except Refusal Unit :=
  (c.bodies.flatMap walk).forM (checkInstr c)

/-- The contract that `code` becomes at `address`. -/
def flatten (address : Address) (code : ContractCode) : Except Refusal Contract :=
  match code.chain.foldlM addCode ⟨address, code.name, ∅, ∅, [], none⟩ with
  | .error r => .error r
  | .ok c =>
    match c.check with
    | .error r => .error r
    | .ok () => .ok c

/-- What is accepted was gathered along the chain, and its bodies were checked. -/
theorem flatten_eq_ok {a : Address} {code : ContractCode} {c : Contract} :
    flatten a code = .ok c ↔
      code.chain.foldlM addCode ⟨a, code.name, ∅, ∅, [], none⟩ = .ok c ∧ c.check = .ok () := by
  unfold flatten
  cases code.chain.foldlM addCode ⟨a, code.name, ∅, ∅, [], none⟩ with
  | error r => exact ⟨fun h => (nomatch h), fun h => nomatch h.1⟩
  | ok d =>
    simp only
    cases hcheck : d.check with
    | error r =>
      refine ⟨fun h => (nomatch h), ?_⟩
      rintro ⟨⟨⟩, h⟩
      rw [hcheck] at h
      cases h
    | ok _ =>
      refine ⟨?_, And.left⟩
      rintro ⟨⟩
      exact ⟨rfl, hcheck⟩

end Contract
end ContractVM
