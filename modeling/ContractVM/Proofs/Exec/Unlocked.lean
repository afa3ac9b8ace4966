/-
Failures that no lock is the reason of.

A body fails with `reentrancyBlocked` only where it asks for a lock.  Everything
else that it checks, such as its operands, its gas and the arguments of what it
reaches, fails for reasons of its own.  Each check that the relation follows is
listed here once, so that whoever follows it can say of every other failure that
it blames no lock.
-/
import ContractVM.Proofs.Exec.Ordinary

namespace ContractVM

/-- A check that blames no lock if it fails. -/
def Unlocked {α : Type} (r : Except Cause α) : Prop :=
  ∀ c, r = .error c → c.kind ≠ .reentrancyBlocked

theorem Cause.unlocked_of_ordinary {c : Cause} (h : c.ordinary = true) :
    c.kind ≠ .reentrancyBlocked := by
  cases c with
  | alreadyEntered | undeclaredEvent | fieldNotSet | noFunction => cases h
  | _ => exact nofun

namespace Unlocked

variable {α β : Type}

theorem ok (a : α) : Unlocked (.ok a) := fun _ h => by cases h

theorem error {c : Cause} (h : c.kind ≠ .reentrancyBlocked) :
    Unlocked (.error c : Except Cause α) := by
  intro c' hc
  cases hc
  exact h

theorem of_ordinary {r : Except Cause α} (h : Ordinary r) : Unlocked r :=
  fun c hc => Cause.unlocked_of_ordinary (h c hc)

/-! ## Operands -/

theorem asUint (v : Value) : Unlocked v.asUint := of_ordinary (.asUint v)

theorem asBool (v : Value) : Unlocked v.asBool := of_ordinary (.asBool v)

theorem asAddress (v : Value) : Unlocked v.asAddress := of_ordinary (.asAddress v)

theorem apply (op : Operator) (l r : Value) : Unlocked (op.apply l r) :=
  of_ordinary (.apply op l r)

theorem charge (m : GasMeter) (n : Int) : Unlocked (m.charge n) := of_ordinary (.charge m n)

theorem named {t : Table Value} {name : String} {missing : Cause}
    (h : missing.kind ≠ .reentrancyBlocked) : Unlocked (Eval.named t name missing) := by
  unfold Eval.named
  split
  · exact ok _
  · exact error h

theorem ensureReadable (s : Sight) (what : String) : Unlocked (Eval.ensureReadable s what) :=
  of_ordinary (.ensureReadable s what)

/-! ## Entry points -/

theorem bindTo (params : List Param) (args : Args) : Unlocked (args.bindTo params) :=
  of_ordinary (.bindTo params args)

theorem lookup (r : Registry) (a : Address) : Unlocked (r.lookup a) := of_ordinary (.lookup r a)

theorem bindNamed (c : Contract) (fn : String) (r : Request) : Unlocked (c.bindNamed fn r) := by
  unfold Contract.bindNamed
  split
  · split
    · exact error nofun
    · split
      · exact error nofun
      · split
        · next h => exact error (bindTo _ r.args _ h)
        · exact ok _
  · split
    · split
      · exact error nofun
      · exact ok _
    · exact error nofun

theorem bindRequest (c : Contract) (r : Request) : Unlocked (c.bind r) := by
  unfold Contract.bind
  split
  · exact of_ordinary (.bindConstructors c r)
  · exact bindNamed c _ r

theorem result (fn : FunctionDef) (flow : Flow) : Unlocked (fn.result flow) :=
  of_ordinary (.result fn flow)

theorem invocable (sc : Scope) (fn : String) : Unlocked (Exec.invocable sc fn) := by
  unfold Exec.invocable
  split
  · exact error nofun
  · split
    · exact error nofun
    · split
      · exact error nofun
      · exact ok _

end Unlocked
end ContractVM
