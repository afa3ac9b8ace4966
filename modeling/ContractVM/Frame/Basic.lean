/-
One activation of a contract. A frame knows what its code may ask about
(`Context`), pays from its own meter, and buffers events and terminations until
it is known whether it commits. A frame and its caller know each other by
number: the caller has at most one active callee.
-/
import ContractVM.Event.Basic
import ContractVM.Gas
import ContractVM.Locks

namespace ContractVM

/-- What a frame runs on behalf of whom. Under a delegate call, `self` is still
the caller's own address. -/
structure Context where
  sender : Address
  origin : Address
  value : Int
  self : Address
  codeAddress : Address
  timestamp : Int
  blockNumber : Int
deriving Repr, DecidableEq

structure FrameFlags where
  isStatic : Bool
  constructing : Bool
  delegated : Bool
deriving Repr, DecidableEq

structure Frame where
  id : Nat
  parent : Option Nat
  depth : Nat
  ctx : Context
  flags : FrameFlags
  phase : Phase
  ending : Option Ending
  /-- The callee that runs on top of this frame. -/
  active : Option Nat
  meter : GasMeter
  pending : List Event
  terminations : List Address
  tokens : List LockToken
deriving DecidableEq

namespace Frame

/-- A fresh frame, called from `parent` if there is one. -/
def start (id : Nat) (parent : Option Frame) (ctx : Context) (flags : FrameFlags)
    (meter : GasMeter) : Frame where
  id := id
  parent := parent.map (·.id)
  depth := match parent with
    | some p => p.depth + 1
    | none => 0
  ctx := ctx
  flags := flags
  phase := .pending
  ending := none
  active := none
  meter := meter
  pending := []
  terminations := []
  tokens := []

/-- Enter another phase; being done fixes how the frame ended. -/
def transition (f : Frame) (next : Phase) : Except Misuse Frame :=
  if next ∈ f.phase.following then
    .ok { f with
      phase := next
      ending :=
        if next = .done then
          some (if f.phase = .committing then .committed else .reverted)
        else f.ending }
  else .error (.illegalTransition f.phase next)

def adopt (f child : Frame) : Except Misuse Frame :=
  if child.parent ≠ some f.id then .error .adoptedByStranger
  else if f.active.isSome then .error .childActive
  else .ok { f with active := some child.id }

/-- Let go of a callee; one that is not active changes nothing. -/
def release (f child : Frame) : Frame :=
  if f.active = some child.id then { f with active := none } else f

/-- Buffer an event. -/
def emit (f : Frame) (e : Event) : Frame := { f with pending := f.pending ++ [e] }

/-- Buffer the termination of a contract. -/
def terminate (f : Frame) (a : Address) : Frame :=
  { f with terminations := f.terminations ++ [a] }

/-- Keep a lock until the frame ends. -/
def hold (f : Frame) (t : LockToken) : Frame := { f with tokens := f.tokens ++ [t] }

/-- A committing frame hands its terminations to its caller. -/
def passTerminations (f parent : Frame) : Frame × Frame :=
  ({ f with terminations := [] },
    { parent with terminations := parent.terminations ++ f.terminations })

/-- A committing frame hands its events to its caller. -/
def passEvents (f parent : Frame) : Frame × Frame :=
  ({ f with pending := [] }, { parent with pending := parent.pending ++ f.pending })

/-- Forget the buffered events. -/
def discardEvents (f : Frame) : Frame := { f with pending := [] }

/-- Forget what a frame buffered. -/
def discard (f : Frame) : Frame := { f.discardEvents with terminations := [] }

theorem release_adopt {f f' child : Frame} (h : f.adopt child = .ok f') :
    f'.release child = f := by
  unfold adopt at h
  split at h
  · cases h
  · split at h
    · cases h
    · next ha =>
      cases h
      cases f
      simp_all [release]

end Frame
end ContractVM
