/-
The persisted state in canonical order: accounts by address, the slots of each
by key. Equal contents give equal dumps whatever the order of the writes.
-/
import ContractVM.Storage.Basic

namespace ContractVM

structure Account where
  address : Address
  balance : Int
  slots : List (String × Value)
deriving Repr, DecidableEq

namespace Storage

/-- Entries by name. -/
def sortEntries (entries : List (String × Value)) : List (String × Value) :=
  entries.mergeSort fun a b => Text.le a.1 b.1

/-- Every address with a slot table or a balance, once each, in order. -/
def addresses (l : Layer) : List Address :=
  Text.sort (l.slots.keys ++ l.balances.keys).eraseDups

def account (l : Layer) (a : Address) : Account where
  address := a
  balance := (l.balance? a).getD 0
  slots := sortEntries ((l.slots.get? a).getD ∅).entries

def dump (s : Storage) : List Account := (addresses s.persisted).map (account s.persisted)

end Storage
end ContractVM
