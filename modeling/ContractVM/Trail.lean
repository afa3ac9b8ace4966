/-
The trail of a machine: what happened, the latest step first. It is complete
enough to follow every frame from its opening to its end; the few steps that an
operator is told about become notices.
-/
import ContractVM.Event.Basic
import ContractVM.Fault
import ContractVM.Settings

namespace ContractVM

inductive Step where
  -- Inside a transaction; frames are numbered from zero in each.
  | opened (frame : Nat) (parent : Option Nat) (depth : Nat) (self code : Address) (budget : Int)
  /-- An instruction is about to run. -/
  | boundary (frame : Nat) (left : Int)
  /-- An invocation has paid its jump. -/
  | invoked (frame : Nat) (fn : String)
  | locked (frame : Nat) (address : Address)
  | unlocked (frame : Nat) (address : Address)
  | emitted (frame : Nat) (event : Event)
  | destroyed (frame : Nat) (address : Address)
  | committed (frame : Nat) (left : Int)
  | reverted (frame depth : Nat) (code : Address) (cause : Cause) (propagated : Bool) (left : Int)
  /-- A call failed and its caller goes on. -/
  | callFailed (frame : Nat) (fn : String) (cause : Cause)
  -- Of the host
  | deployed (contract : String) (address : Address) (gasUsed : Int)
  | deployReverted (contract : String) (address : Address) (cause : Cause)
  | callCommitted (contract : Address) (fn : String) (gasUsed : Int) (events : Nat)
  | callReverted (contract : Address) (fn : String) (gasUsed : Int) (cause : Cause)
  | terminated (address : Address)
  -- Of the chain
  | queued (submission : Nat) (kind : String) (sender : Address)
  | tickStarted (height transactions : Nat)
  | rejected (submission : Nat) (fault : Fault)
  | blockSealed (height : Nat) (stateRoot : String) (receipts : Nat)
deriving DecidableEq

abbrev Trail := List Step

/-! ## Notices -/

/-- What stands in a field of a notice. -/
inductive Detail where
  | text (s : String)
  | count (n : Nat)
  | failure (f : Failure)
  | fault (f : Fault)
deriving DecidableEq

structure Notice where
  level : LogLevel
  fields : List (String × Detail)
  message : String
deriving DecidableEq

namespace Step

/-- Gas is told as text, since it may exceed any counter. -/
def gasDetail (n : Int) : Detail := .text (toString n)

/-- A field for a reason that may be missing. -/
def reasonField (c : Cause) : List (String × Detail) :=
  (c.reason.map fun r => ("reason", Detail.text r)).toList

def notice? : Step → Option Notice
  | reverted _ depth code cause _ _ => some ⟨.debug,
      [("depth", .count depth), ("contract", .text code), ("kind", .text cause.kind.name)] ++
        reasonField cause,
      "frame reverted"⟩
  | callFailed _ fn cause => some ⟨.trace,
      [("fn", .text fn), ("kind", .text cause.kind.name)], "low-level call failed"⟩
  | deployed contract address gasUsed => some ⟨.info,
      [("name", .text contract), ("address", .text address), ("gasUsed", gasDetail gasUsed)],
      "deployed"⟩
  | deployReverted contract address cause => some ⟨.debug,
      [("name", .text contract), ("address", .text address),
        ("failure", .failure cause.failure)],
      "deploy reverted"⟩
  | callCommitted contract fn gasUsed events => some ⟨.debug,
      [("contract", .text contract), ("fn", .text fn), ("gasUsed", gasDetail gasUsed),
        ("events", .count events)],
      "call committed"⟩
  | callReverted contract fn gasUsed cause => some ⟨.debug,
      [("contract", .text contract), ("fn", .text fn), ("gasUsed", gasDetail gasUsed),
        ("failure", .failure cause.failure)],
      "call reverted"⟩
  | terminated address => some ⟨.info, [("address", .text address)], "terminated"⟩
  | queued submission kind sender => some ⟨.debug,
      [("txId", .count submission), ("kind", .text kind), ("from", .text sender)], "tx queued"⟩
  | tickStarted height transactions => some ⟨.debug,
      [("height", .count height), ("txs", .count transactions)], "tick start"⟩
  | rejected submission fault => some ⟨.warn,
      [("txId", .count submission), ("err", .fault fault)], "tx rejected"⟩
  | blockSealed height stateRoot receipts => some ⟨.info,
      [("height", .count height), ("stateRoot", .text stateRoot), ("receipts", .count receipts)],
      "block sealed"⟩
  | _ => none

end Step

/-- The notices of a trail, in the order in which they were given. -/
def Trail.notices (t : Trail) : List Notice := t.reverse.filterMap Step.notice?

end ContractVM
