/-
Calling a contract: a request is bound to an entry point, its value is moved
and its frame runs. What the frame wrote is kept or undone as a whole; a failure
is reported to the caller together with the gas that is left.

How a body runs is a parameter (`Runner`) throughout, because bodies call
contracts again.
-/
import ContractVM.Exec.Eval

namespace ContractVM

/-! ## Requests -/

inductive Selector where
  | construct
  /-- A function by name; the empty name is the fallback. -/
  | named (fn : String)
deriving Repr, DecidableEq

structure Request where
  caller : Address
  origin : Address
  codeAddress : Address
  storageAddress : Address
  selector : Selector
  args : Args
  value : Int
  /-- A delegate call shows the value of its caller and moves none. -/
  transfers : Bool
  gas : Int
  flags : FrameFlags

def Request.context (r : Request) (b : BlockContext) : Context where
  sender := r.caller
  origin := r.origin
  value := r.value
  self := r.storageAddress
  codeAddress := r.codeAddress
  timestamp := b.timestamp
  blockNumber := b.number

/-- An entry point with its arguments. -/
inductive Bound where
  | function (fn : Owned FunctionDef) (args : Args)
  | fallback (fb : Owned FallbackDef)
  | construct (inits : List (Owned ConstructorDef × Args))

namespace Contract

/-- The constructors of the chain with their arguments. Only the last of them
decides whether value may be attached. -/
def bindConstructors (c : Contract) (r : Request) : Except Cause Bound :=
  if 0 < r.value ∧ c.inits.getLast?.all (fun i => !i.item.payable) then
    .error (.notPayable (.constructor c.name))
  else
    match Args.bindEach (c.inits.map (·.item.params)) r.args with
    | .error e => .error e
    | .ok args => .ok (.construct (c.inits.zip args))

/-- The function or fallback that a name selects. -/
def bindNamed (c : Contract) (fn : String) (r : Request) : Except Cause Bound :=
  match c.function? fn with
  | some f =>
    if f.item.visibility ≠ .external ∧ f.item.visibility ≠ .public then
      .error (.notCallable c.name f.item.name f.item.visibility)
    else if 0 < r.value ∧ f.item.mutability ≠ .payable then
      .error (.notPayable (.function c.name f.item.name))
    else
      match r.args.bindTo f.item.params with
      | .error e => .error e
      | .ok args => .ok (.function f args)
  | none =>
    match c.fallback with
    | some fb =>
      if 0 < r.value ∧ !fb.item.payable then .error (.notPayable (.fallback c.name))
      else .ok (.fallback fb)
    | none => .error (.noFunction c.name fn)

def bind (c : Contract) (r : Request) : Except Cause Bound :=
  match r.selector with
  | .construct => c.bindConstructors r
  | .named fn => c.bindNamed fn r

/-- Whether a request takes the lock of its storage address. -/
def takesLock (c : Contract) (r : Request) : Bool :=
  match r.selector with
  | .construct => false
  | .named fn => c.isGuarded fn

end Contract

/-! ## Running a bound entry point -/

/-- What a function gives back: the value it returned or the default of its
type, which has to conform. -/
def FunctionDef.result (fn : FunctionDef) (flow : Flow) : Except Cause (Option Value) :=
  match fn.returns with
  | none => .ok none
  | some type =>
    let v := match flow with
      | .done (some v) => v
      | _ => Value.default type
    if Value.conforms type v then .ok (some v) else .error (.resultMistyped fn.name type)

namespace Exec

def constructAll (run : Runner) (env : Environment) (c : Contract) :
    List (Owned ConstructorDef × Args) → ExecM Unit
  | [] => pure ()
  | (d, args) :: rest => do
    let _ ← freshLocals (run ⟨env, c, d.owner, .payable, args⟩ d.item.body)
    constructAll run env c rest

def runEntry (run : Runner) (env : Environment) (c : Contract) : Bound → ExecM (Option Value)
  | .construct inits => do
    spend Fee.create
    constructAll run env c inits
    return none
  | .fallback fb => do
    let mutability := if fb.item.payable then Mutability.payable else .mutating
    let _ ← freshLocals (run ⟨env, c, fb.owner, mutability, ∅⟩ fb.item.body)
    return none
  | .function fn args => do
    let flow ← freshLocals (run ⟨env, c, fn.owner, fn.item.mutability, args⟩ fn.item.body)
    lift (fn.item.result flow)

/-- Take a lock that the frame holds until it ends. -/
def holdLock (a : Address) : ExecM Unit := do
  let token ← lock a
  modify fun s => { s with frame := s.frame.hold token }

/-- Everything a frame does before it commits. -/
def attempt (run : Runner) (env : Environment) (r : Request) : ExecM (Option Value) := do
  move .binding
  let c ← lift (env.registry.lookup r.codeAddress)
  let bound ← lift (c.bind r)
  onlyIf r.transfers (transfer r.caller r.storageAddress r.value)
  onlyIf (c.takesLock r) (holdLock r.storageAddress)
  move .executing
  let v ← runEntry run env c bound
  move .committing
  return v

end Exec

/-! ## The end of a frame -/

/-- How a frame ended, for its caller. -/
inductive Outcome where
  | committed (value : Option Value) (left : Int)
  | reverted (cause : Cause) (left : Int)
deriving Repr, DecidableEq

namespace Site

/-- Undo a frame that failed: its writes, events and terminations are gone, and
its gas with them if the failure burns it. -/
def revert (t : Site) (cause : Cause) (propagated : Bool) : Except Misuse (Outcome × Site) := do
  let f ← t.frame.transition .reverting
  let storage ← t.world.storage.rollback
  let f := { f.discard with meter := f.meter.fail (cause.kind.policy propagated) }
  let f ← f.transition .done
  return (.reverted cause f.meter.left,
    Site.note { (t.withStorage storage) with frame := f }
      (.reverted f.id f.depth f.ctx.codeAddress cause propagated f.meter.left))

/-- Handle the fault a frame ended with. A failure is undone and reported; any
other fault is undone and goes on to the host. -/
def settle (t : Site) : Fault → EStateM.Result Fault Site Outcome
  | .raised cause propagated =>
    match t.revert cause propagated with
    | .ok (outcome, t') => .ok outcome t'
    | .error m => .error (.misuse m) t
  | fault =>
    match t.world.storage.rollback with
    | .ok storage => .error fault (t.withStorage storage)
    | .error m => .error (.misuse m) t

/-- Hand what a frame did to its caller. -/
def commitTo (t : Site) (parent : Frame) : Except Misuse (Site × Frame) := do
  let (_, storage) ← t.world.storage.commit
  let (f, parent) := t.frame.passTerminations parent
  let (f, parent) := f.passEvents parent
  let f ← f.transition .done
  return (Site.note { (t.withStorage storage) with frame := f } (.committed f.id f.meter.left),
    parent)

/-- Back at the caller `s`, whose frame has become `parent`: the locks of the
callee are released and it is let go. -/
def leave (s t : Site) (parent : Frame) : Site where
  world := (t.unlock t.frame.tokens).world
  frame := parent.release t.frame
  locals := s.locals

end Site

namespace World

/-- Open a frame: a layer for its writes and a number. -/
def enter (w : World) (f : Frame) : World where
  storage := w.storage.snapshot
  locks := w.locks
  trail := .opened f.id f.parent f.depth f.ctx.self f.ctx.codeAddress f.meter.budget :: w.trail
  opened := w.opened + 1

end World

namespace Exec

/-- Run a request in a frame of its own, called from the frame of the site. -/
def openFrame (run : Runner) (env : Environment) (r : Request) : ExecM Outcome := fun s =>
  match GasMeter.ofBudget? r.gas with
  | none => .error .negativeBudget s
  | some meter =>
    let child := Frame.start s.world.opened (some s.frame) (r.context env.block) r.flags meter
    match s.frame.adopt child with
    | .error m => .error (.misuse m) s
    | .ok parent =>
      match attempt run env r ⟨s.world.enter child, child, ∅⟩ with
      | .ok v t =>
        match t.commitTo parent with
        | .ok (t', parent') => .ok (.committed v t'.frame.meter.left) (s.leave t' parent')
        | .error m => .error (.misuse m) (s.leave t parent)
      | .error fault t =>
        match t.settle fault with
        | .ok outcome t' => .ok outcome (s.leave t' parent)
        | .error fault' t' => .error fault' (s.leave t' parent)

end Exec
end ContractVM
