/-
What a host can do with a machine, as data.

A host deploys and calls contracts, makes value, terminates contracts and sets
the block, in any order.  `Operation.after` is the machine after one of these,
whether it took effect or not, `Machine.perform` that after a list of them, and
a machine is reachable if some list leads to it from a fresh one.
-/
import ContractVM.Machine.Basic

namespace ContractVM

inductive Operation where
  | deploy (code : ContractCode) (args : Args) (deployer : Address) (value : Int)
    (gas : Option Int)
  | call (sender target : Address) (fn : String) (args : Args) (value : Int) (gas : Option Int)
  | fund (a : Address) (amount : Int)
  | terminate (a beneficiary : Address)
  | setBlock (b : BlockContext)

/-- The machine that an operation leaves behind. -/
def Host.left {α : Type} (r : EStateM.Result Fault Machine α) : Machine :=
  match r with
  | .ok _ m => m
  | .error _ m => m

def Host.gave {α : Type} (r : EStateM.Result Fault Machine α) : Bool :=
  match r with
  | .ok _ _ => true
  | .error _ _ => false

/-- Whether a call gave the value of a callee that committed. -/
def CallResult.isCommitted : CallResult → Bool
  | .committed .. => true
  | .reverted .. => false

namespace Operation

def after (m : Machine) : Operation → Machine
  | .deploy code args deployer value gas => Host.left (Machine.deploy code args deployer value gas m)
  | .call sender target fn args value gas =>
    Host.left (Machine.call sender target fn args value gas m)
  | .fund a amount => Host.left (Machine.fund a amount m)
  | .terminate a beneficiary => Host.left (Machine.terminate a beneficiary m)
  | .setBlock b => Host.left (Machine.setBlock b m)

/-- Whether an operation takes effect: it ends without a fault, and a call does
not revert. -/
def succeeds (m : Machine) : Operation → Bool
  | .deploy code args deployer value gas => Host.gave (Machine.deploy code args deployer value gas m)
  | .call sender target fn args value gas =>
    match Machine.call sender target fn args value gas m with
    | .ok r _ => r.isCommitted
    | .error _ _ => false
  | .fund a amount => Host.gave (Machine.fund a amount m)
  | .terminate a beneficiary => Host.gave (Machine.terminate a beneficiary m)
  | .setBlock b => Host.gave (Machine.setBlock b m)

theorem call_of_succeeds {sender target : Address} {fn : String} {args : Args}
    {value : Int} {gas : Option Int} {m : Machine}
    (h : (Operation.call sender target fn args value gas).succeeds m = true) :
    ∃ v used logged, Machine.call sender target fn args value gas m =
      .ok (.committed v used logged) ((Operation.call sender target fn args value gas).after m) := by
  unfold Operation.succeeds at h
  unfold Operation.after
  simp only at h ⊢
  cases hr : Machine.call sender target fn args value gas m with
  | error f m' =>
    rw [hr] at h
    cases h
  | ok res m' =>
    rw [hr] at h
    cases res with
    | reverted failure used => cases h
    | committed v used logged => exact ⟨v, used, logged, rfl⟩

theorem deploy_of_succeeds {code : ContractCode} {args : Args} {deployer : Address}
    {value : Int} {gas : Option Int} {m : Machine}
    (h : (Operation.deploy code args deployer value gas).succeeds m = true) :
    ∃ a, Machine.deploy code args deployer value gas m =
      .ok a ((Operation.deploy code args deployer value gas).after m) := by
  unfold Operation.succeeds at h
  unfold Operation.after
  simp only at h ⊢
  cases hr : Machine.deploy code args deployer value gas m with
  | error f m' =>
    rw [hr] at h
    cases h
  | ok a m' => exact ⟨a, rfl⟩

end Operation

namespace Machine

def perform (m : Machine) (ops : List Operation) : Machine := ops.foldl Operation.after m

/-- A machine that a host can have before it. -/
def Reachable (m : Machine) : Prop :=
  ∃ settings hash ops, m = (start settings hash).perform ops

end Machine

end ContractVM
