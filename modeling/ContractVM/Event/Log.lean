/-
The log of events: append-only, shared by all contracts. An event reaches it
once its frame and every caller of that frame have committed. Beside the log
stand the declarations of the deployed contracts, by event name and address.
-/
import ContractVM.Frame.Basic

namespace ContractVM

structure EventLog where
  entries : List LoggedEvent
  declarations : Table (Table EventDecl)
deriving DecidableEq

namespace EventLog

def empty : EventLog := ⟨[], ∅⟩

instance : Inhabited EventLog := ⟨empty⟩

def size (l : EventLog) : Nat := l.entries.length

/-- Note that the contract at `a` declares `decl`. -/
def declareOne (a : Address) (decls : Table (Table EventDecl)) (decl : EventDecl) :
    Table (Table EventDecl) :=
  decls.set decl.name (((decls.get? decl.name).getD ∅).set a decl)

def declare (l : EventLog) (a : Address) (events : List EventDecl) : EventLog :=
  { l with declarations := events.foldl (declareOne a) l.declarations }

/-- Events numbered from `base` on, in numbers of 53 bits. -/
def number (base : Nat) (events : List Event) : List LoggedEvent :=
  events.mapIdx fun i e => { e with logIndex := .nearest (base + i : Nat) }

/-- What flushing a frame without caller would log. -/
def staged (l : EventLog) (f : Frame) : Except Misuse (List LoggedEvent) :=
  if f.parent.isSome then .error .stagedBelowTop else .ok (number l.size f.pending)

/-- Move the events of a frame without caller into the log. -/
def flush (l : EventLog) (f : Frame) : List LoggedEvent × EventLog × Frame :=
  let logged := number l.size f.pending
  (logged, { l with entries := l.entries ++ logged }, { f with pending := [] })

end EventLog
end ContractVM
