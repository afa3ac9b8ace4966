/-
A lock that is handed over in the order of the requests. Every request gets a
ticket; a granted ticket is released at most once, and releasing hands the lock
to the next request at once, so that it never becomes free in between.
-/

namespace ContractVM

/-- Requests are numbered from zero. -/
abbrev Ticket := Nat

structure Mutex where
  requests : Nat := 0
  held : Bool := false
  waiting : List Ticket := []
  /-- All grants so far, in order. -/
  granted : List Ticket := []
  released : List Ticket := []
  acquisitions : Nat := 0
deriving Repr, DecidableEq

namespace Mutex

instance : Inhabited Mutex := ⟨{}⟩

def grant (m : Mutex) (t : Ticket) : Mutex :=
  { m with
    held := true
    granted := m.granted ++ [t]
    acquisitions := m.acquisitions + 1 }

/-- Ask for the lock. -/
def acquire (m : Mutex) : Ticket × Mutex :=
  let t := m.requests
  let m := { m with requests := t + 1 }
  (t, if m.held then { m with waiting := m.waiting ++ [t] } else m.grant t)

/-- Pass the lock on, or free it if nobody waits. -/
def handOff (m : Mutex) : Mutex :=
  match m.waiting with
  | next :: rest => { m with waiting := rest }.grant next
  | [] => { m with held := false }

/-- Release a ticket. Nothing happens for one that was not granted or has been
released before. -/
def release (m : Mutex) (t : Ticket) : Mutex :=
  if t ∈ m.granted ∧ t ∉ m.released then { m with released := m.released ++ [t] }.handOff
  else m

/-- The grants that are not released yet. -/
def unreleased (m : Mutex) : List Ticket := m.granted.filter (· ∉ m.released)

end Mutex

/-! ## Tasks under the lock -/

/-- Tasks that each run once, while they hold the lock. -/
structure Exclusive (τ : Type) where
  mutex : Mutex := {}
  tasks : List (Ticket × τ) := []

namespace Exclusive

variable {τ σ : Type}

instance : Inhabited (Exclusive τ) := ⟨{}⟩

def request (e : Exclusive τ) (task : τ) : Ticket × Exclusive τ :=
  let (t, mutex) := e.mutex.acquire
  (t, ⟨mutex, e.tasks ++ [(t, task)]⟩)

/-- The task that has the lock and has not run yet. -/
def next? (e : Exclusive τ) : Option (Ticket × τ) :=
  e.tasks.find? fun p => p.1 ∈ e.mutex.unreleased

/-- The task with ticket `t` has run: it gives the lock back. -/
def complete (e : Exclusive τ) (t : Ticket) : Exclusive τ :=
  ⟨e.mutex.release t, e.tasks.filter (·.1 ≠ t)⟩

/-- Run up to `n` tasks, each as soon as it has the lock. -/
def run (body : σ → Ticket → τ → σ) : Nat → Exclusive τ → σ → Exclusive τ × σ
  | 0, e, s => (e, s)
  | n + 1, e, s =>
    match e.next? with
    | none => (e, s)
    | some (t, task) => run body n (e.complete t) (body s t task)

/-- Run every task that can run. -/
def runAll (body : σ → Ticket → τ → σ) (e : Exclusive τ) (s : σ) : Exclusive τ × σ :=
  run body e.tasks.length e s

end Exclusive
end ContractVM
