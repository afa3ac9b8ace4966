/-
Gas: the fee schedule, the meter of one frame, and what a failing frame does
with the gas it has left.
-/
import ContractVM.Cause

namespace ContractVM

/-! ## Fees -/

namespace Fee

def op : Int := 3
def jump : Int := 8
def read : Int := 200
def call : Int := 700
/-- Surcharge of a call that attaches value. -/
def callValue : Int := 9000
/-- Gas given to the callee of a call that attaches value, for free. -/
def callStipend : Int := 2300
def storageSet : Int := 20000
def storageUpdate : Int := 5000
def log : Int := 375
def logTopic : Int := 375
def create : Int := 32000
def selfDestruct : Int := 5000

/-- The whole schedule by name. -/
def schedule : List (String × Int) :=
  [("op", op), ("jump", jump), ("read", read), ("call", call), ("callValue", callValue),
   ("callStipend", callStipend), ("storageSet", storageSet), ("storageUpdate", storageUpdate),
   ("log", log), ("logTopic", logTopic), ("create", create), ("selfDestruct", selfDestruct)]

/-- The stipend is paid for by the surcharge, so a call with value cannot make
gas. -/
theorem callStipend_le_callValue : callStipend ≤ callValue := by decide

end Fee

/-! ## Policies -/

/-- What a failing frame does with its gas: `assertFail` burns all of it, the
other two keep it. -/
inductive FailurePolicy where
  | assertFail
  | requireFail
  | revertFail
deriving Repr, DecidableEq

def FailurePolicy.name : FailurePolicy → String
  | .assertFail => "assertFail"
  | .requireFail => "requireFail"
  | .revertFail => "revertFail"

def FailurePolicy.all : List FailurePolicy := [.assertFail, .requireFail, .revertFail]

/-- Running out of gas, a failed assertion and a forbidden write or read burn
the gas of the frame that caused them. A frame that passes on the failure of a
callee keeps its own. -/
def FailureKind.policy (kind : FailureKind) (propagated : Bool) : FailurePolicy :=
  if propagated then .revertFail
  else match kind with
    | .outOfGas | .assertFailed | .staticViolation => .assertFail
    | .requireFailed => .requireFail
    | _ => .revertFail

/-! ## Meters -/

structure GasMeter where
  budget : Int
  left : Int
deriving Repr, DecidableEq

namespace GasMeter

/-- A full meter; a budget cannot be negative. -/
def ofBudget? (budget : Int) : Option GasMeter :=
  if budget < 0 then none else some ⟨budget, budget⟩

def used (m : GasMeter) : Int := m.budget - m.left

def charge (m : GasMeter) (amount : Int) : Except Cause GasMeter :=
  if m.left < amount then .error (.outOfGas amount m.left)
  else .ok { m with left := m.left - amount }

/-- Give gas back, up to the budget. -/
def refund (m : GasMeter) (amount : Int) : GasMeter :=
  { m with left := if m.budget < m.left + amount then m.budget else m.left + amount }

def fail (m : GasMeter) : FailurePolicy → GasMeter
  | .assertFail => { m with left := 0 }
  | _ => m

theorem charge_eq_ok_iff {m m' : GasMeter} {n : Int} :
    m.charge n = .ok m' ↔ n ≤ m.left ∧ m' = { m with left := m.left - n } := by
  unfold charge
  split
  · next h => exact ⟨(fun e => by cases e), fun e => absurd e.1 (by omega)⟩
  · next h => exact ⟨(fun e => ⟨by omega, by cases e; rfl⟩), fun e => by rw [e.2]⟩

theorem budget_charge {m m' : GasMeter} {n : Int} (h : m.charge n = .ok m') :
    m'.budget = m.budget := by
  rw [(charge_eq_ok_iff.1 h).2]

theorem left_charge {m m' : GasMeter} {n : Int} (h : m.charge n = .ok m') :
    m'.left = m.left - n := by
  rw [(charge_eq_ok_iff.1 h).2]

theorem left_refund_le (m : GasMeter) (n : Int) : (m.refund n).left ≤ m.budget := by
  unfold refund
  simp only
  split <;> omega

@[simp] theorem budget_refund (m : GasMeter) (n : Int) : (m.refund n).budget = m.budget := rfl

end GasMeter
end ContractVM
