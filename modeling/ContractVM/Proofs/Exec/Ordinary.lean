/-
Failures of the ordinary checks.

Most of what a body checks has to do with the values at hand: its operands, its gas and the
arguments of what it reaches.  Each of these checks is listed here once, with the one thing
that is said about its failure: it is not about a lock, nor about the names of events, fields
and functions, which are looked at when a contract is deployed.
-/
import ContractVM.Exec.Instr

namespace ContractVM

/-- Whether a failure has to do with values only, and not with locks or declared names. -/
def Cause.ordinary : Cause → Bool
  | .undeclaredEvent _ | .fieldNotSet _ _ | .noFunction _ _ | .alreadyEntered _ => false
  | _ => true

/-- A check that fails for an ordinary reason. -/
def Ordinary {α : Type} (r : Except Cause α) : Prop := ∀ c, r = .error c → c.ordinary = true

namespace Ordinary

variable {α β : Type}

theorem ok (a : α) : Ordinary (.ok a) := fun _ h => by cases h

theorem error {c : Cause} (h : c.ordinary = true) :
    Ordinary (.error c : Except Cause α) := by
  intro c' hc
  cases hc
  exact h

theorem bind {r : Except Cause α} {f : α → Except Cause β} (h : Ordinary r)
    (hf : ∀ a, Ordinary (f a)) : Ordinary (r.bind f) := by
  cases r with
  | ok a => exact hf a
  | error c => exact error (h c rfl)

theorem map {r : Except Cause α} (f : α → β) (h : Ordinary r) : Ordinary (r.map f) := by
  cases r with
  | ok a => exact ok _
  | error c => exact error (h c rfl)

theorem mapM {f : α → Except Cause β} (hf : ∀ a, Ordinary (f a)) (l : List α) :
    Ordinary (l.mapM f) := by
  induction l with
  | nil => exact ok _
  | cons a rest ih =>
    rw [List.mapM_cons]
    exact (hf a).bind fun b => ih.bind fun bs => ok _

/-! ## Operands -/

theorem asUint (v : Value) : Ordinary v.asUint := by
  cases v with
  | int n => exact ok n
  | text s | bool b => exact error rfl

theorem asBool (v : Value) : Ordinary v.asBool := by
  cases v with
  | bool b => exact ok b
  | text s | int n => exact error rfl

theorem asAddress (v : Value) : Ordinary v.asAddress := by
  cases v with
  | text s =>
    unfold Value.asAddress
    simp only
    split
    · exact ok s
    · exact error rfl
  | int n | bool b => exact error rfl

theorem inRange (n : Int) : Ordinary (Operator.inRange n) := by
  unfold Operator.inRange
  split
  · exact error rfl
  · split
    · exact error rfl
    · exact ok _

theorem ints (l r : Value) : Ordinary (Operator.ints l r) := by
  unfold Operator.ints
  split
  · next h => exact error (asUint l _ h)
  · split
    · next h => exact error (asUint r _ h)
    · exact ok _

theorem divided (f : Int → Int → Int) (l r : Value) : Ordinary (Operator.divided f l r) := by
  unfold Operator.divided
  split
  · next h => exact error (asUint r _ h)
  · split
    · exact error rfl
    · split
      · next h => exact error (asUint l _ h)
      · exact ok _

theorem connected (settled : Bool) (l r : Value) : Ordinary (Operator.connected settled l r) := by
  unfold Operator.connected
  split
  · next h => exact error (asBool l _ h)
  · split
    · exact ok _
    · exact (asBool r).map _

theorem apply (op : Operator) (l r : Value) : Ordinary (op.apply l r) := by
  cases op with
  | add | sub | mul => exact (ints l r).bind fun p => inRange _
  | div | mod => exact divided _ l r
  | eq | neq => exact ok _
  | lt | lte | gt | gte => exact (ints l r).map _
  | and | or => exact connected _ l r

theorem charge (m : GasMeter) (n : Int) : Ordinary (m.charge n) := by
  unfold GasMeter.charge
  split
  · exact error rfl
  · exact ok _

theorem named {t : Table Value} {name : String} {missing : Cause}
    (h : missing.ordinary = true) : Ordinary (Eval.named t name missing) := by
  unfold Eval.named
  split
  · exact ok _
  · exact error h

theorem ensureReadable (s : Sight) (what : String) : Ordinary (Eval.ensureReadable s what) := by
  unfold Eval.ensureReadable
  split
  · exact error rfl
  · exact ok _

/-! ## Arguments -/

theorem find (args : Args) (p : Param) : Ordinary (args.find p) := by
  unfold Args.find
  split
  · split
    · exact ok _
    · exact error rfl
  · split
    · exact error rfl
    · exact error rfl

theorem findAll (args : Args) (params : List Param) (bound : Args) :
    Ordinary (args.findAll params bound) := by
  induction params generalizing bound with
  | nil => exact ok bound
  | cons p rest ih =>
    unfold Args.findAll
    split
    · exact ih _
    · next h => exact error (find args p _ h)

theorem bindTo (params : List Param) (args : Args) : Ordinary (args.bindTo params) := by
  unfold Args.bindTo
  split
  · next h => exact error (findAll args params ∅ _ h)
  · split
    · exact ok _
    · exact error rfl

theorem bindEach (chain : List (List Param)) (args : Args) : Ordinary (args.bindEach chain) := by
  unfold Args.bindEach
  split
  · next h => exact error (mapM (fun params => findAll args params ∅) chain _ h)
  · split
    · exact ok _
    · exact error rfl

/-! ## Entry points -/

theorem lookup (r : Registry) (a : Address) : Ordinary (r.lookup a) := by
  unfold Registry.lookup
  split
  · exact ok _
  · exact error rfl

theorem bindConstructors (c : Contract) (r : Request) : Ordinary (c.bindConstructors r) := by
  unfold Contract.bindConstructors
  split
  · exact error rfl
  · split
    · next h => exact error (bindEach _ r.args _ h)
    · exact ok _

theorem result (fn : FunctionDef) (flow : Flow) : Ordinary (fn.result flow) := by
  unfold FunctionDef.result
  split
  · exact ok _
  · exact iteInduction (fun _ => ok _) (fun _ => error rfl)

end Ordinary

/-! ## Evaluation -/

/-- An evaluation that fails for an ordinary reason. -/
def Calm {α : Type} (act : EvalM α) : Prop :=
  ∀ m c m', act m = .error c m' → c.ordinary = true

namespace Calm

variable {α β : Type}

theorem pure (a : α) : Calm (Pure.pure a) := fun _ _ _ h => nomatch h

theorem get : Calm (MonadState.get : EvalM GasMeter) := fun _ _ _ h => nomatch h

theorem bind {act : EvalM α} {f : α → EvalM β} (h : Calm act) (hf : ∀ a, Calm (f a)) :
    Calm (act >>= f) := by
  intro m c m' hr
  replace hr : EStateM.bind act f m = .error c m' := hr
  unfold EStateM.bind at hr
  cases ha : act m with
  | error e m'' =>
    rw [ha] at hr
    cases hr
    exact h m c m' ha
  | ok a m'' =>
    rw [ha] at hr
    exact hf a m'' c m' hr

theorem lift {r : Except Cause α} (h : Ordinary r) : Calm (Eval.lift r) := by
  intro m c m' hr
  cases r with
  | ok a => cases hr
  | error e =>
    cases hr
    exact h c rfl

theorem spend (n : Int) : Calm (Eval.spend n) := by
  intro m c m' hr
  unfold Eval.spend at hr
  cases hm : m.charge n with
  | ok m'' =>
    rw [hm] at hr
    cases hr
  | error e =>
    rw [hm] at hr
    cases hr
    exact Ordinary.charge m n c hm

end Calm

mutual
theorem Expr.eval_calm (s : Sight) : ∀ e : Expr, Calm (e.eval s)
  | .const v => .pure v
  | .arg _ => .lift (.named rfl)
  | .local _ => .lift (.named rfl)
  | .env _ => .bind (.lift (.ensureReadable s _)) fun _ => .bind .get fun _ => .pure _
  | .balance of =>
    .bind (.lift (.ensureReadable s _)) fun _ => .bind (of.eval_calm s) fun v =>
      .bind (.lift (.asAddress v)) fun _ => .bind (.spend _) fun _ => .pure _
  | .slot _ keys => .bind (Expr.evalAll_calm s keys) fun _ => .pure _
  | .sload key =>
    .bind (.lift (.ensureReadable s _)) fun _ => .bind (key.eval_calm s) fun _ =>
      .bind (.spend _) fun _ => .pure _
  | .bin _ left right =>
    .bind (left.eval_calm s) fun l => .bind (right.eval_calm s) fun r =>
      .bind (.spend _) fun _ => .lift (.apply _ l r)
  | .not e =>
    .bind (e.eval_calm s) fun v => .bind (.lift (.asBool v)) fun _ =>
      .bind (.spend _) fun _ => .pure _

theorem Expr.evalAll_calm (s : Sight) : ∀ es : List Expr, Calm (Expr.evalAll s es)
  | [] => .pure []
  | e :: rest =>
    .bind (e.eval_calm s) fun _ => .bind (Expr.evalAll_calm s rest) fun _ => .pure _
end

theorem Expr.evalArgs_calm (s : Sight) (args : List (String × Expr)) (done : Args) :
    Calm (Expr.evalArgs s args done) := by
  induction args generalizing done with
  | nil => exact .pure done
  | cons a rest ih => exact .bind (a.2.eval_calm s) fun _ => ih _

/-! ## Transfers -/

theorem Storage.transfer_ordinary {s : Storage} {source target : Address} {amount : Int}
    {c : Cause} {p : Bool} (h : s.transfer source target amount = .error (.raised c p)) :
    c.ordinary = true ∧ p = false := by
  unfold transfer at h
  split at h
  · cases h
    exact ⟨rfl, rfl⟩
  · split at h
    · cases h
    · split at h
      · cases h
        exact ⟨rfl, rfl⟩
      · split at h
        · cases h
        · split at h <;> cases h

end ContractVM
