/-
Executing instructions. `Instr.execAll` follows the text of a body; wherever an
instruction reaches another body, through an invocation or a call, that body is
run by the `Runner` it is given. `runBody` ties the knot: bodies may nest as
deep as the gas of the transaction can pay for, and a nesting that costs nothing
does not exist.
-/
import ContractVM.Exec.Call

namespace ContractVM
namespace Exec

/-! ## Events -/

/-- The value set for one field of an event. -/
def eventValue (sc : Scope) (event : String) (args : Table Expr) (f : EventField) :
    ExecM Value :=
  match args.get? f.name with
  | some e => value sc e
  | none =>
    if f.name ∈ Args.reserved then fail (.fieldMistyped event f.name f.type)
    else fail (.fieldNotSet event f.name)

/-- The fields of an event, in the order of its declaration. -/
def eventFields (sc : Scope) (event : String) (args : Table Expr) :
    List EventField → ExecM (List LoggedField)
  | [] => pure []
  | f :: rest => do
    let v ← eventValue sc event args f
    if Value.conforms f.type v then
      let others ← eventFields sc event args rest
      return ⟨f.name, v, f.isIndexed⟩ :: others
    else fail (.fieldMistyped event f.name f.type)

def emit (sc : Scope) (event : String) (args : Table Expr) : ExecM Unit := do
  ensureWritable sc "emit"
  match sc.contract.events.get? event with
  | none => fail (.undeclaredEvent event)
  | some decl =>
    let fields ← eventFields sc event args decl.fields
    let topics := (fields.filter (·.indexed)).length
    spend (Fee.log + Fee.logTopic * topics)
    modify fun s =>
      let e : Event := ⟨s.frame.ctx.self, event, fields⟩
      Site.note { s with frame := s.frame.emit e } (.emitted s.frame.id e)

/-! ## Self-destruction -/

def selfDestruct (sc : Scope) (beneficiary : Expr) : ExecM Unit := do
  ensureWritable sc "selfdestruct"
  let target ← lift (← value sc beneficiary).asAddress
  spend Fee.selfDestruct
  let self := (← get).frame.ctx.self
  transfer self target ((← get).world.storage.balanceOf self)
  modify fun s =>
    Site.note { s with frame := s.frame.terminate self } (.destroyed s.frame.id self)

/-! ## Invocations -/

/-- The function an invocation lands on, if the body at hand may invoke it. -/
def invocable (sc : Scope) (fn : String) : Except Cause (Owned FunctionDef) :=
  match sc.contract.functions.get? fn with
  | none => .error (.noFunction sc.contract.name fn)
  | some f =>
    if f.item.visibility = .external then .error (.externalOnly sc.contract.name fn)
    else if f.item.visibility = .private ∧ f.owner ≠ sc.owner then
      .error (.privateTo fn f.owner)
    else .ok f

/-- The lock an invocation takes, if its function asks for one. -/
def invocationLock (f : FunctionDef) : ExecM (List LockToken) := fun s =>
  if f.nonReentrant then ((fun token => [token]) <$> lock s.frame.ctx.self) s
  else .ok [] s

/-- Set a local name, if there is both a name and a value. -/
def setResult (name : Option String) (v : Option Value) : ExecM Unit :=
  match name, v with
  | some name, some v => setLocal name v
  | _, _ => pure ()

/-- Run a function of the same contract in the frame at hand. It may do no more
than both its declaration and its caller allow. -/
def invoke (run : Runner) (sc : Scope) (fn : String) (args : Option (Table Expr))
    (result : Option String) : ExecM Unit := do
  let f ← lift (invocable sc fn)
  spend Fee.jump
  note (.invoked (← get).frame.id fn)
  let bound ← lift ((← arguments sc args).bindTo f.item.params)
  let tokens ← invocationLock f.item
  let mutability := sc.mutability.narrower f.item.mutability
  let v ← releasing tokens do
    let flow ← freshLocals (run ⟨sc.env, sc.contract, f.owner, mutability, bound⟩ f.item.body)
    lift (f.item.result flow)
  setResult result v

/-! ## Calls -/

/-- A local name an instruction was given, unless it is missing or empty. -/
def setNamed (name : Option String) (v : Value) : ExecM Unit :=
  match name with
  | some name => if name = "" then pure () else setLocal name v
  | none => pure ()

/-- A call failed: the failure goes on, or ends in the success flag. -/
def callFailed (spec : CallSpec) (cause : Cause) (propagated : Bool) : ExecM Unit := do
  if spec.caught.getD false then
    setNamed spec.success (.bool false)
    note (.callFailed (← get).frame.id spec.fn cause)
  else throw (.raised cause propagated)

/-- A transfer of value to an account without code. -/
def sendValue (spec : CallSpec) (target : Address) (amount : Int) : ExecM Unit := fun s =>
  match transfer s.frame.ctx.self target amount s with
  | .ok () t => setNamed spec.success (.bool true) t
  | .error (.raised cause propagated) t => callFailed spec cause propagated t
  | .error fault t => .error fault t

/-- Gas for a callee: what was asked for, but never more than leaves the caller
a sixty-fourth of what it has. -/
def forwarded (left : Int) (requested : Option Int) : Int :=
  let cap := left - left.tdiv 64
  match requested with
  | some n => if n < cap then n else cap
  | none => cap

/-- The request of a call on code at `target`. -/
def request (sc : Scope) (spec : CallSpec) (f : Frame) (target : Address) (args : Args)
    (amount gas : Int) : Request :=
  let delegated := decide (spec.kind = .delegate)
  { caller := if delegated then f.ctx.sender else f.ctx.self
    origin := f.ctx.origin
    codeAddress := target
    storageAddress := if delegated then f.ctx.self else target
    selector := .named spec.fn
    args := args
    value := if delegated then f.ctx.value else amount
    transfers := !delegated
    gas := gas
    flags := {
      isStatic := f.flags.isStatic || decide (sc.mutability.rank < 2)
      constructing := false
      delegated := delegated } }

/-- A call that reached code: lock, gas, the frame of the callee, and what it
leaves behind. -/
def callContract (run : Runner) (sc : Scope) (spec : CallSpec) (callee : Contract)
    (target : Address) (amount : Int) (args : Args) (requested : Option Int) : ExecM Unit := do
  let f := (← get).frame
  let storageAddress := if spec.kind = .delegate then f.ctx.self else target
  if callee.isGuarded spec.fn && (← get).world.locks.isLocked storageAddress then
    callFailed spec (.alreadyEntered storageAddress) false
  else
    let gas := forwarded f.meter.left requested
    spend gas
    let stipend := if 0 < amount then Fee.callStipend else 0
    match ← openFrame run sc.env (request sc spec f target args amount (gas + stipend)) with
    | .committed v left =>
      modify fun s => s.withMeter (s.frame.meter.refund left)
      setNamed spec.success (.bool true)
      setResult (spec.result.filter (· ≠ "")) v
    | .reverted cause left =>
      modify fun s => s.withMeter (s.frame.meter.refund left)
      callFailed spec cause true

/-- An optional operand that has to be an integer. -/
def optionalUint (sc : Scope) : Option Expr → ExecM (Option Int)
  | none => pure none
  | some e => do return some (← lift (← value sc e).asUint)

/-- A call of another account: the operands in the order target, value,
arguments, gas; then the fee; then the target decides. -/
def call (run : Runner) (sc : Scope) (spec : CallSpec) : ExecM Unit := do
  onlyIf (← get).frame.flags.constructing (fail .callWhileConstructing)
  onlyIf (decide (spec.kind = .delegate) && spec.value.isSome) (fail .delegateWithValue)
  let target ← lift (← value sc spec.target).asAddress
  let amount := (← optionalUint sc spec.value).getD 0
  onlyIf (decide (0 < amount)) (ensureWritable sc "value transfer")
  let args ← arguments sc spec.args
  let requested ← optionalUint sc spec.gas
  spend (Fee.call + if 0 < amount then Fee.callValue else 0)
  let depth := (← get).frame.depth + 1
  if sc.env.maxCallDepth.lt (.ofNat depth) then callFailed spec (.tooDeep depth) false
  else
    match sc.env.registry.find? target with
    | some callee => callContract run sc spec callee target amount args requested
    | none =>
      if spec.kind = .call ∧ spec.fn = "" ∧ !sc.env.registry.isRetired target then
        sendValue spec target amount
      else callFailed spec (.noContract target) false

end Exec

/-! ## Bodies -/

open Exec

/-- Mark that an instruction is about to run. -/
def Exec.boundary : ExecM Unit := fun s =>
  .ok () (s.note (.boundary s.frame.id s.frame.meter.left))

mutual
def Instr.exec (run : Runner) (sc : Scope) : Instr → ExecM Flow
  | .bind name e => do
    setLocal name (← value sc e)
    return .next
  | .sstore key e => do
    ensureWritable sc "sstore"
    let k := (← value sc key).keyText
    let v ← value sc e
    write k v
    return .next
  | .require cond reason => do
    if ← condition sc cond then return .next else fail (.required reason)
  | .assert cond => do
    if ← condition sc cond then return .next else fail .asserted
  | .revert reason => fail (.reverted reason)
  | .emit event args => do
    Exec.emit sc event args
    return .next
  | .call spec => do
    Exec.call run sc spec
    return .next
  | .invoke fn args result => do
    Exec.invoke run sc fn args result
    return .next
  | .branch cond yes no => do
    if ← condition sc cond then Instr.execAll run sc yes else Instr.execElse run sc no
  | .ret e => do return .done (some (← value sc e))
  | .selfDestruct beneficiary => do
    Exec.selfDestruct sc beneficiary
    return .done none

/-- A body, up to the instruction that ends it. -/
def Instr.execAll (run : Runner) (sc : Scope) : List Instr → ExecM Flow
  | [] => pure .next
  | i :: rest => do
    boundary
    match ← i.exec run sc with
    | .next => Instr.execAll run sc rest
    | .done v => return .done v

def Instr.execElse (run : Runner) (sc : Scope) : Option (List Instr) → ExecM Flow
  | none => pure .next
  | some body => Instr.execAll run sc body
end

/-- Run a body that nests at most `depth` deep. -/
def runBody : Nat → Runner
  | 0 => fun _ _ => throw .exhausted
  | depth + 1 => fun sc body => Instr.execAll (runBody depth) sc body

/-- The deepest nesting that `gas` can pay for: every step into another body
costs at least a jump. -/
def nesting (gas : Int) : Nat := gas.toNat / Fee.jump.toNat + 1

end ContractVM
