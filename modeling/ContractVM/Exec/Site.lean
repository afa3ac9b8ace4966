/-
Where code runs. A transaction shares one `World`; the code of one frame
changes it together with its frame and its local names, and these three make a
`Site`. A fault leaves the site as it is at that moment, so that whoever handles
it decides what to undo.
-/
import ContractVM.Contract.Arguments
import ContractVM.Frame.Basic
import ContractVM.Registry
import ContractVM.Settings
import ContractVM.Storage.Basic
import ContractVM.Trail

namespace ContractVM

/-- The block a transaction runs in. -/
structure BlockContext where
  timestamp : Int := 0
  number : Int := 0
deriving Repr, DecidableEq

/-- What a transaction reads and never changes. -/
structure Environment where
  registry : Registry
  maxCallDepth : Number
  block : BlockContext

/-- What the frames of a transaction share. -/
structure World where
  storage : Storage
  locks : Locks
  trail : Trail
  /-- The number of the next frame. -/
  opened : Nat

structure Site where
  world : World
  frame : Frame
  locals : Table Value

/-- The body that runs: its contract, the contract it was written in, and what
it may do. -/
structure Scope where
  env : Environment
  contract : Contract
  owner : String
  mutability : Mutability
  args : Args

abbrev ExecM := EStateM Fault Site

/-- How a body goes on after an instruction. -/
inductive Flow where
  | next
  /-- The body is over, with a value if it returned one. -/
  | done (value : Option Value)
deriving Repr, DecidableEq

/-- A way to run a body. -/
abbrev Runner := Scope → List Instr → ExecM Flow

/-! ## Changing one part of a site -/

namespace Site

def withMeter (s : Site) (m : GasMeter) : Site := { s with frame := { s.frame with meter := m } }

def withStorage (s : Site) (storage : Storage) : Site :=
  { s with world := { s.world with storage := storage } }

def setLocal (s : Site) (name : String) (v : Value) : Site :=
  { s with locals := s.locals.set name v }

def note (s : Site) (step : Step) : Site :=
  { s with world := { s.world with trail := step :: s.world.trail } }

/-- Release tokens in turn. -/
def unlock (s : Site) (tokens : List LockToken) : Site :=
  { s with world := { s.world with
      locks := s.world.locks.releaseAll tokens
      trail := (tokens.map fun t => Step.unlocked s.frame.id t.address).reverse ++
        s.world.trail } }

end Site

/-! ## Elementary actions -/

namespace Exec

def fail {α : Type} (c : Cause) : ExecM α := fun s => .error (.raised c false) s

def lift {α : Type} (r : Except Cause α) : ExecM α := fun s =>
  match r with
  | .ok a => .ok a s
  | .error c => .error (.raised c false) s

def note (step : Step) : ExecM Unit := fun s => .ok () (s.note step)

def setLocal (name : String) (v : Value) : ExecM Unit := fun s => .ok () (s.setLocal name v)

def spend (amount : Int) : ExecM Unit := fun s =>
  match s.frame.meter.charge amount with
  | .ok m => .ok () (s.withMeter m)
  | .error c => .error (.raised c false) s

def transfer (source target : Address) (amount : Int) : ExecM Unit := fun s =>
  match s.world.storage.transfer source target amount with
  | .ok storage => .ok () (s.withStorage storage)
  | .error f => .error f s

/-- Charge the frame for a write and make it. -/
def write (key : String) (v : Value) : ExecM Unit := fun s =>
  match s.world.storage.write s.frame.ctx.self key v s.frame.meter with
  | .ok (_, storage, m) => .ok () ((s.withStorage storage).withMeter m)
  | .error f => .error f s

def move (next : Phase) : ExecM Unit := fun s =>
  match s.frame.transition next with
  | .ok f => .ok () { s with frame := f }
  | .error m => .error (.misuse m) s

/-- An action that is taken only if `b` holds. -/
def onlyIf (b : Bool) (act : ExecM Unit) : ExecM Unit := if b then act else pure ()

/-- Take the lock of an address. -/
def lock (a : Address) : ExecM LockToken := fun s =>
  match s.world.locks.enter a with
  | .ok (token, locks) =>
    .ok token (Site.note { s with world := { s.world with locks := locks } }
      (.locked s.frame.id a))
  | .error c => .error (.raised c false) s

/-- Run an action and release tokens afterwards, however it ends. -/
def releasing {α : Type} (tokens : List LockToken) (act : ExecM α) : ExecM α := fun s =>
  match act s with
  | .ok a t => .ok a (t.unlock tokens)
  | .error f t => .error f (t.unlock tokens)

/-- Run a body with no local names, and come back to the caller's own. -/
def freshLocals {α : Type} (act : ExecM α) : ExecM α := fun s =>
  match act { s with locals := ∅ } with
  | .ok a t => .ok a { t with locals := s.locals }
  | .error f t => .error f { t with locals := s.locals }

/-- Writes are forbidden in a static frame and in a function that only reads. -/
def ensureWritable (sc : Scope) (what : String) : ExecM Unit := fun s =>
  if s.frame.flags.isStatic then .error (.raised (.staticFrame what) false) s
  else match sc.mutability with
    | .view | .pure => .error (.raised (.writeForbidden what sc.mutability) false) s
    | .mutating | .payable => .ok () s

end Exec
end ContractVM
