/-
The journal: one stored entry for every committed transaction, in order.
Replaying it from nothing rebuilds the persisted state and the log of events.
-/
import ContractVM.Journal.Codec

namespace ContractVM

abbrev Journal := List Bytes

namespace Journal

/-- Add a stored entry and give its place. -/
def push (j : Journal) (entry : Bytes) : Nat × Journal := (j.length, j ++ [entry])

def decoded (j : Journal) : Except Fault (List JournalEntry) := j.mapM Codec.decodeEntry

/-- One entry on top of what was rebuilt so far. -/
def replayEntry (state : Storage × List LoggedEvent) (stored : Bytes) :
    Except Fault (Storage × List LoggedEvent) := do
  let entry ← Codec.decodeEntry stored
  match state.1.apply entry.delta with
  | .ok storage => return (storage, state.2 ++ entry.events)
  | .error m => throw (.misuse m)

def replay (j : Journal) : Except Fault (Storage × List LoggedEvent) :=
  j.foldlM replayEntry (.empty, [])

end Journal
end ContractVM
