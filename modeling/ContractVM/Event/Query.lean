/-
Searching the log. A filter on fields is checked against the declarations when
the query is made, so that a field that is not indexed is an error and not an
empty answer; the matches are then read one at a time, from a log that may have
grown in between.
-/
import ContractVM.Event.Log

namespace ContractVM

/-- Conditions on events; the empty address and the empty name ask nothing. -/
structure EventFilter where
  address : String := ""
  event : String := ""
  fields : Table Value := ∅

namespace EventFilter

def matchesEvent (q : EventFilter) (e : Event) : Bool :=
  (decide (q.address = "") || decide (e.address = q.address)) &&
  (decide (q.event = "") || decide (e.name = q.event)) &&
  q.fields.entries.all fun c =>
    e.fields.any fun f => f.indexed && decide (f.name = c.1) && decide (f.value = c.2)

/-- Every name has to be an indexed field of `decl`. -/
def checkAgainst (event : String) (decl : EventDecl) : List String → Except FilterError Unit
  | [] => .ok ()
  | name :: rest =>
    match decl.fields.find? (·.name = name) with
    | none => .error (.noField event name)
    | some field =>
      if field.isIndexed then checkAgainst event decl rest else .error (.notIndexed event name)

/-- The declarations a filter has to agree with: the one of the address asked
for if it has one, since a proxy logs events its own code does not declare, and
all of them otherwise. -/
def relevant (q : EventFilter) (decls : Table EventDecl) : List EventDecl :=
  match if q.address = "" then none else decls.get? q.address with
  | some own => [own]
  | none => decls.values

def check (q : EventFilter) (l : EventLog) : Except FilterError Unit :=
  if q.fields.keys.isEmpty then .ok ()
  else if q.event = "" then .error .noEvent
  else match l.declarations.get? q.event with
    | none => .error (.unknownEvent q.event)
    | some decls => (q.relevant decls).forM fun decl => checkAgainst q.event decl q.fields.keys

end EventFilter

/-- A query in progress. Once it has reached the end of the log it is over, even
if the log grows. -/
structure EventCursor where
  filter : EventFilter
  position : Nat := 0
  finished : Bool := false

namespace EventLog

def query (l : EventLog) (q : EventFilter) : Except FilterError EventCursor :=
  (q.check l).map fun _ => { filter := q }

/-- All matches, in the order of the log. -/
def matching (l : EventLog) (q : EventFilter) : List LoggedEvent :=
  l.entries.filter fun e => q.matchesEvent e.toEvent

end EventLog

namespace EventCursor

/-- The first match among `entries`, and how many entries come before it. -/
def scan (q : EventFilter) : List LoggedEvent → Nat → Option (LoggedEvent × Nat)
  | [], _ => none
  | e :: rest, n => if q.matchesEvent e.toEvent then some (e, n) else scan q rest (n + 1)

def next (c : EventCursor) (l : EventLog) : Option LoggedEvent × EventCursor :=
  if c.finished then (none, c)
  else match scan c.filter (l.entries.drop c.position) c.position with
    | some (e, n) => (some e, { c with position := n + 1 })
    | none => (none, { c with finished := true })

end EventCursor
end ContractVM
