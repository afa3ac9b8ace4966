/-
Reentrancy locks, one per storage address, so that a proxy and the code it
delegates to share one. Taking a lock gives a token, and a token releases its
address at most once.
-/
import ContractVM.Fault

namespace ContractVM

/-- The addresses that are locked. -/
abbrev Locks := List Address

structure LockToken where
  address : Address
  held : Bool := true
deriving Repr, DecidableEq

namespace Locks

def isLocked (l : Locks) (a : Address) : Bool := decide (a ∈ l)

def enter (l : Locks) (a : Address) : Except Cause (LockToken × Locks) :=
  if a ∈ l then .error (.alreadyEntered a) else .ok (⟨a, true⟩, l ++ [a])

def unlock (l : Locks) (a : Address) : Locks := l.filter (· ≠ a)

/-- A released token and the locks it leaves. -/
def release (l : Locks) (t : LockToken) : LockToken × Locks :=
  if t.held then ({ t with held := false }, l.unlock t.address) else (t, l)

/-- Release several tokens in turn. -/
def releaseAll (l : Locks) (tokens : List LockToken) : Locks :=
  tokens.foldl (fun l t => (l.release t).2) l

theorem unlock_append_of_not_mem {l : Locks} {a : Address} (h : a ∉ l) :
    unlock (l ++ [a]) a = l := by
  simp only [unlock, ne_eq, decide_not, List.filter_append, List.filter_cons, decide_true,
    Bool.not_true, Bool.false_eq_true, if_false, List.filter_nil, List.append_nil,
    List.filter_eq_self, Bool.not_eq_true', decide_eq_false_iff_not]
  exact fun b hb hba => h (hba ▸ hb)

end Locks
end ContractVM
