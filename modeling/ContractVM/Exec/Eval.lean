/-
Evaluating expressions. An expression sees its surroundings and spends gas; it
has no way to change anything else, which its type says.
-/
import ContractVM.Code.Operator
import ContractVM.Exec.Site

namespace ContractVM

/-- What an expression sees. -/
structure Sight where
  ctx : Context
  mutability : Mutability
  args : Args
  locals : Table Value
  storage : Storage

abbrev EvalM := EStateM Cause GasMeter

namespace Eval

def lift {α : Type} (r : Except Cause α) : EvalM α := fun m =>
  match r with
  | .ok a => .ok a m
  | .error c => .error c m

def spend (amount : Int) : EvalM Unit := fun m =>
  match m.charge amount with
  | .ok m' => .ok () m'
  | .error c => .error c m

/-- The value of a name, or why there is none. -/
def named (t : Table Value) (name : String) (missing : Cause) : Except Cause Value :=
  match t.get? name with
  | some v => .ok v
  | none => .error missing

/-- A pure function may not read anything but its arguments and locals. -/
def ensureReadable (s : Sight) (what : String) : Except Cause Unit :=
  match s.mutability with
  | .pure => .error (.readForbidden what)
  | _ => .ok ()

def field (s : Sight) (left : Int) : EnvField → Value
  | .sender => .text s.ctx.sender
  | .origin => .text s.ctx.origin
  | .value => .int s.ctx.value
  | .self => .text s.ctx.self
  | .timestamp => .int s.ctx.timestamp
  | .blockNumber => .int s.ctx.blockNumber
  | .gasLeft => .int left

end Eval

open Eval

mutual
def Expr.eval (s : Sight) : Expr → EvalM Value
  | .const v => pure v
  | .arg name => lift (named s.args name (.unboundArgument name))
  | .local name => lift (named s.locals name (.unboundLocal name))
  | .env f => do
    lift (ensureReadable s f.name)
    return field s (← get).left f
  | .balance of => do
    lift (ensureReadable s "balance")
    let a ← lift (← of.eval s).asAddress
    spend Fee.read
    return .int (s.storage.balanceOf a)
  | .slot base keys => do
    return .text (Value.slotKey base (← Expr.evalAll s keys))
  | .sload key => do
    lift (ensureReadable s "sload")
    let k := (← key.eval s).keyText
    spend Fee.read
    return s.storage.read s.ctx.self k
  | .bin op left right => do
    let l ← left.eval s
    let r ← right.eval s
    spend Fee.op
    lift (op.apply l r)
  | .not e => do
    let b ← lift (← e.eval s).asBool
    spend Fee.op
    return .bool !b

/-- Several expressions, from left to right. -/
def Expr.evalAll (s : Sight) : List Expr → EvalM (List Value)
  | [] => pure []
  | e :: rest => do
    let v ← e.eval s
    let vs ← Expr.evalAll s rest
    return v :: vs
end

/-- Arguments by name, in the order of the record. A value for the name
that code cannot set is computed and lost. -/
def Expr.evalArgs (s : Sight) : List (String × Expr) → Args → EvalM Args
  | [], done => pure done
  | (name, e) :: rest, done => do
    let v ← e.eval s
    Expr.evalArgs s rest (if name = Args.unsettable then done else done.set name v)

namespace Exec

def sight (sc : Scope) (s : Site) : Sight where
  ctx := s.frame.ctx
  mutability := sc.mutability
  args := sc.args
  locals := s.locals
  storage := s.world.storage

/-- Evaluate at a site, paying from its frame. -/
def evaluating {α : Type} (sc : Scope) (act : Sight → EvalM α) : ExecM α := fun s =>
  match act (sight sc s) s.frame.meter with
  | .ok a m => .ok a (s.withMeter m)
  | .error c m => .error (.raised c false) (s.withMeter m)

def value (sc : Scope) (e : Expr) : ExecM Value := evaluating sc fun s => e.eval s

def condition (sc : Scope) (e : Expr) : ExecM Bool := do
  lift (← value sc e).asBool

def arguments (sc : Scope) (args : Option (Table Expr)) : ExecM Args :=
  evaluating sc fun s => Expr.evalArgs s (args.getD ∅).entries ∅

end Exec
end ContractVM
