/-
The contracts by address. An address is used once: after a termination, or
when its constructor failed, it is retired for good.
-/
import ContractVM.Contract.Flatten
import ContractVM.StateRoot

namespace ContractVM

structure Registry where
  contracts : Table Contract
  /-- How many addresses a deployer has been given. -/
  nonces : Table Nat
  retired : List Address

namespace Registry

def empty : Registry := ⟨∅, ∅, []⟩

instance : Inhabited Registry := ⟨empty⟩

def size (r : Registry) : Nat := r.contracts.size

def find? (r : Registry) (a : Address) : Option Contract := r.contracts.get? a

def lookup (r : Registry) (a : Address) : Except Cause Contract :=
  match r.find? a with
  | some c => .ok c
  | none => .error (.noContract a)

def isRetired (r : Registry) (a : Address) : Bool := decide (a ∈ r.retired)

def nonce (r : Registry) (deployer : Address) : Nat := (r.nonces.get? deployer).getD 0

/-- The next address of a deployer. Its count goes up even if the address
cannot be derived. -/
def nextAddress (hash : Bytes → Bytes) (r : Registry) (deployer : Address) :
    Except Fault Address × Registry :=
  (deriveAddress hash deployer (r.nonce deployer),
    { r with nonces := r.nonces.set deployer (r.nonce deployer + 1) })

def register (r : Registry) (a : Address) (code : ContractCode) :
    Except Refusal (Contract × Registry) :=
  if r.contracts.contains a || r.isRetired a then .error (.addressTaken a)
  else
    match Contract.flatten a code with
    | .error e => .error e
    | .ok c => .ok (c, { r with contracts := r.contracts.set a c })

/-- Take an address out of use. -/
def retire (r : Registry) (a : Address) : Registry :=
  { r with
    contracts := r.contracts.erase a
    retired := if a ∈ r.retired then r.retired else r.retired ++ [a] }

/-- Retire a live contract. -/
def terminate (r : Registry) (a : Address) : Except Misuse Registry :=
  if r.contracts.contains a then .ok (r.retire a) else .error (.unknownContract a)

theorem lookup_eq_ok {r : Registry} {a : Address} {c : Contract} :
    r.lookup a = .ok c ↔ r.find? a = some c := by
  unfold lookup
  cases r.find? a <;> simp

/-- A contract is registered at an address that is free and not retired. -/
theorem register_eq_ok {r r' : Registry} {a : Address} {code : ContractCode} {c : Contract}
    (h : r.register a code = .ok (c, r')) :
    r.find? a = none ∧ a ∉ r.retired ∧ Contract.flatten a code = .ok c ∧
      r' = { r with contracts := r.contracts.set a c } := by
  unfold register at h
  split at h
  · cases h
  · next hfree =>
    rw [Bool.or_eq_true, not_or] at hfree
    split at h
    · cases h
    · next hflatten =>
      cases h
      exact ⟨Option.not_isSome_iff_eq_none.1 hfree.1, fun ha => hfree.2 (decide_eq_true ha),
        hflatten, rfl⟩

theorem find?_retire (r : Registry) (a b : Address) :
    (r.retire a).find? b = if b = a then none else r.find? b :=
  Table.get?_erase ..

theorem mem_retired_retire (r : Registry) (a b : Address) :
    b ∈ (r.retire a).retired ↔ b ∈ r.retired ∨ b = a := by
  simp only [retire]
  split
  · next h =>
    constructor
    · exact Or.inl
    · rintro (hb | rfl)
      · exact hb
      · exact h
  · simp only [List.mem_append, List.mem_singleton]

end Registry
end ContractVM
