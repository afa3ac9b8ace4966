/-
What code does does not depend on the trail.

The trail is written all along and read nowhere.  `Blind` says of an action that it does the
same whatever had been told before: started with an earlier trail below its own it ends
as it would without, with that trail still below.  There is one lemma for every action
that code is made of, and `runBody_blind` ties the knot by induction on the nesting.
-/
import ContractVM.Proofs.Exec.Nesting

namespace ContractVM

/-- The site as it is if `earlier` was told before. -/
def Site.over (earlier : Trail) (s : Site) : Site :=
  { s with world := { s.world with trail := s.world.trail ++ earlier } }

theorem Site.over_unlock (earlier : Trail) (s : Site) (tokens : List LockToken) :
    (s.over earlier).unlock tokens = (s.unlock tokens).over earlier := by
  unfold Site.unlock Site.over
  simp only [List.append_assoc]

def Exec.endOver {α : Type} (earlier : Trail) :
    EStateM.Result Fault Site α → EStateM.Result Fault Site α
  | .ok a t => .ok a (t.over earlier)
  | .error f t => .error f (t.over earlier)

/-- An action that does the same whatever was told before. -/
def Blind {α : Type} (act : ExecM α) : Prop :=
  ∀ earlier s, act (s.over earlier) = Exec.endOver earlier (act s)

/-- A way to run bodies that does not look at the trail. -/
def Runner.Blind (run : Runner) : Prop := ∀ sc body, ContractVM.Blind (run sc body)

namespace Blind

variable {α β : Type} {act els : ExecM α}

theorem pure (a : α) : Blind (Pure.pure a) := fun _ _ => rfl

theorem bind {k : α → ExecM β} (h : Blind act) (hk : ∀ a, Blind (k a)) : Blind (act >>= k) := by
  intro earlier s
  have ha := h earlier s
  cases hr : act s with
  | ok a t =>
    rw [hr] at ha
    rw [Exec.bind_ok hr, Exec.bind_ok ha]
    exact hk a earlier t
  | error f t =>
    rw [hr] at ha
    rw [Exec.bind_error hr, Exec.bind_error ha]
    rfl

theorem map (f : α → β) (h : Blind act) : Blind (f <$> act) := by
  intro earlier s
  show EStateM.map f act (s.over earlier) = Exec.endOver earlier (EStateM.map f act s)
  unfold EStateM.map
  rw [h earlier s]
  cases act s <;> rfl

/-- An action that goes on from what it sees of the site, which is not the trail. -/
theorem get {k : Site → ExecM β} (same : ∀ earlier s, k (s.over earlier) = k s)
    (hk : ∀ s, Blind (k s)) : Blind (MonadState.get >>= k) := by
  intro earlier s
  show k (s.over earlier) (s.over earlier) = Exec.endOver earlier (k s s)
  rw [same]
  exact hk s earlier s

theorem modify {f : Site → Site} (h : ∀ earlier s, f (s.over earlier) = (f s).over earlier) :
    Blind (modify f) := fun earlier s => congrArg (EStateM.Result.ok ()) (h earlier s)

theorem ite {c : Prop} [Decidable c] (h : Blind act) (h' : Blind els) :
    Blind (if c then act else els) := by
  split
  · exact h
  · exact h'

theorem onlyIf (b : Bool) {act : ExecM Unit} (h : Blind act) : Blind (Exec.onlyIf b act) := by
  cases b with
  | true => exact h
  | false => exact .pure ()

theorem freshLocals (h : Blind act) : Blind (Exec.freshLocals act) := by
  intro earlier s
  have ha : act { s.over earlier with locals := ∅ } = Exec.endOver earlier (act { s with locals := ∅ }) :=
    h earlier { s with locals := ∅ }
  unfold Exec.freshLocals
  rw [ha]
  cases act { s with locals := ∅ } <;> rfl

theorem releasing (tokens : List LockToken) (h : Blind act) : Blind (Exec.releasing tokens act) := by
  intro earlier s
  unfold Exec.releasing
  rw [h earlier s]
  cases act s with
  | ok a t => exact congrArg (EStateM.Result.ok a) (t.over_unlock earlier tokens)
  | error f t => exact congrArg (EStateM.Result.error f) (t.over_unlock earlier tokens)

end Blind

/-! ## Elementary actions -/

namespace Exec

variable {sc : Scope}

theorem fail_blind {α : Type} (c : Cause) : Blind (fail c : ExecM α) := fun _ _ => rfl

theorem lift_blind {α : Type} (r : Except Cause α) : Blind (lift r) := by
  intro earlier s
  cases r <;> rfl

theorem note_blind (step : Step) : Blind (note step) := fun _ _ => rfl

theorem boundary_blind : Blind boundary := fun _ _ => rfl

theorem setLocal_blind (name : String) (v : Value) : Blind (setLocal name v) := fun _ _ => rfl

theorem spend_blind (n : Int) : Blind (spend n) := by
  intro earlier s
  simp only [spend, Site.over]
  cases s.frame.meter.charge n <;> rfl

theorem transfer_blind (source target : Address) (amount : Int) :
    Blind (transfer source target amount) := by
  intro earlier s
  simp only [transfer, Site.over]
  cases s.world.storage.transfer source target amount <;> rfl

theorem write_blind (key : String) (v : Value) : Blind (write key v) := by
  intro earlier s
  simp only [write, Site.over]
  cases s.world.storage.write s.frame.ctx.self key v s.frame.meter <;> rfl

theorem move_blind (next : Phase) : Blind (move next) := by
  intro earlier s
  simp only [move, Site.over]
  cases s.frame.transition next <;> rfl

theorem lock_blind (a : Address) : Blind (lock a) := by
  intro earlier s
  by_cases h : a ∈ s.world.locks
  · rw [lock_eq_error h]
    exact lock_eq_error h
  · rw [lock_eq_ok h]
    exact lock_eq_ok h

theorem holdLock_blind (a : Address) : Blind (holdLock a) :=
  (lock_blind a).bind fun _ => .modify fun _ _ => rfl

theorem ensureWritable_blind (what : String) : Blind (ensureWritable sc what) := by
  intro earlier s
  unfold ensureWritable
  show (if s.frame.flags.isStatic = true then _ else _) = _
  split
  · rfl
  · cases sc.mutability <;> rfl

theorem setNamed_blind (name : Option String) (v : Value) : Blind (setNamed name v) := by
  unfold setNamed
  split
  · exact .ite (.pure ()) (setLocal_blind _ v)
  · exact .pure ()

theorem setResult_blind (name : Option String) (v : Option Value) : Blind (setResult name v) := by
  unfold setResult
  split
  · exact setLocal_blind _ _
  · exact .pure ()

/-! ## Operands -/

theorem evaluating_blind {α : Type} (act : Sight → EvalM α) : Blind (evaluating sc act) := by
  intro earlier s
  have hsight : sight sc (s.over earlier) = sight sc s := rfl
  unfold evaluating
  rw [hsight]
  simp only [Site.over]
  cases act (sight sc s) s.frame.meter <;> rfl

theorem value_blind (e : Expr) : Blind (value sc e) := evaluating_blind _

theorem condition_blind (e : Expr) : Blind (condition sc e) :=
  (value_blind e).bind fun _ => lift_blind _

theorem arguments_blind (args : Option (Table Expr)) : Blind (arguments sc args) :=
  evaluating_blind _

theorem optionalUint_blind (e : Option Expr) : Blind (optionalUint sc e) := by
  cases e with
  | none => exact .pure none
  | some e => exact (value_blind e).bind fun _ => (lift_blind _).bind fun _ => .pure _

/-! ## Events and self-destruction -/

theorem eventFields_blind (event : String) (args : Table Expr) (fields : List EventField) :
    Blind (eventFields sc event args fields) := by
  induction fields with
  | nil => exact .pure []
  | cons f rest ih =>
    have hvalue : Blind (eventValue sc event args f) := by
      unfold eventValue
      split
      · exact value_blind _
      · exact .ite (fail_blind _) (fail_blind _)
    exact hvalue.bind fun v => .ite (ih.bind fun _ => .pure _) (fail_blind _)

theorem emit_blind (event : String) (args : Table Expr) : Blind (emit sc event args) := by
  refine (ensureWritable_blind "emit").bind fun _ => ?_
  cases sc.contract.events.get? event with
  | none => exact fail_blind _
  | some decl =>
    refine (eventFields_blind event args decl.fields).bind fun fields => ?_
    exact (spend_blind _).bind fun _ => .modify fun _ _ => rfl

theorem selfDestruct_blind (beneficiary : Expr) : Blind (selfDestruct sc beneficiary) := by
  refine (ensureWritable_blind "selfdestruct").bind fun _ => ?_
  refine (value_blind beneficiary).bind fun v => (lift_blind _).bind fun target => ?_
  refine (spend_blind _).bind fun _ => .get (fun _ _ => rfl) fun s => ?_
  refine .get (fun _ _ => rfl) fun _ => (transfer_blind _ _ _).bind fun _ => ?_
  exact .modify fun _ _ => rfl

/-! ## Frames -/

variable {run : Runner} {env : Environment} {c : Contract}

theorem constructAll_blind (h : run.Blind) (inits : List (Owned ConstructorDef × Args)) :
    Blind (constructAll run env c inits) := by
  induction inits with
  | nil => exact .pure ()
  | cons i rest ih => exact (Blind.freshLocals (h _ _)).bind fun _ => ih

theorem runEntry_blind (h : run.Blind) (b : Bound) : Blind (runEntry run env c b) := by
  cases b with
  | construct inits =>
    exact (spend_blind _).bind fun _ => (constructAll_blind h inits).bind fun _ => .pure none
  | fallback fb => exact (Blind.freshLocals (h _ _)).bind fun _ => .pure none
  | function fn args => exact (Blind.freshLocals (h _ _)).bind fun flow => lift_blind _

theorem attempt_blind (h : run.Blind) (r : Request) : Blind (attempt run env r) := by
  refine (move_blind .binding).bind fun _ => (lift_blind _).bind fun c => ?_
  refine (lift_blind (c.bind r)).bind fun b => ?_
  refine (Blind.onlyIf _ (transfer_blind _ _ _)).bind fun _ => ?_
  refine (Blind.onlyIf _ (holdLock_blind _)).bind fun _ => ?_
  refine (move_blind .executing).bind fun _ => (runEntry_blind h b).bind fun v => ?_
  exact (move_blind .committing).bind fun _ => .pure v

theorem commitTo_over (earlier : Trail) (t : Site) (parent : Frame) :
    (t.over earlier).commitTo parent =
      (t.commitTo parent).map fun p => (p.1.over earlier, p.2) := by
  simp only [Site.commitTo, Site.over, bind, Except.bind, Frame.passTerminations,
    Frame.passEvents]
  cases t.world.storage.commit with
  | error m => rfl
  | ok p =>
    simp only
    cases ({ t.frame with terminations := [], pending := [] } : Frame).transition .done <;> rfl

theorem revert_over (earlier : Trail) (t : Site) (c : Cause) (p : Bool) :
    (t.over earlier).revert c p = (t.revert c p).map fun r => (r.1, r.2.over earlier) := by
  simp only [Site.revert, Site.over, bind, Except.bind]
  cases t.frame.transition .reverting with
  | error m => rfl
  | ok f =>
    simp only
    cases t.world.storage.rollback with
    | error m => rfl
    | ok storage =>
      simp only
      cases ({ f.discard with meter := f.meter.fail (c.kind.policy p) } : Frame).transition
        .done <;> rfl

theorem settle_over (earlier : Trail) (t : Site) (f : Fault) :
    (t.over earlier).settle f = endOver earlier (t.settle f) := by
  by_cases hf : ∃ c p, f = .raised c p
  · obtain ⟨c, p, rfl⟩ := hf
    simp only [Site.settle, revert_over]
    cases t.revert c p <;> rfl
  · have hover : (t.over earlier).world.storage = t.world.storage := rfl
    cases f with
    | raised c p => exact absurd ⟨c, p, rfl⟩ hf
    | _ =>
      simp only [Site.settle, hover]
      cases t.world.storage.rollback <;> rfl

theorem leave_over (earlier : Trail) (s t : Site) (parent : Frame) :
    (s.over earlier).leave (t.over earlier) parent = (s.leave t parent).over earlier := by
  have hunlock := t.over_unlock earlier t.frame.tokens
  exact congrArg (fun u : Site => (⟨u.world, parent.release t.frame, s.locals⟩ : Site)) hunlock

theorem close_over (earlier : Trail) (s : Site) (parent : Frame)
    (res : EStateM.Result Fault Site (Option Value)) :
    close (s.over earlier) parent (endOver earlier res) = endOver earlier (close s parent res) := by
  cases res with
  | ok v t =>
    simp only [close, endOver, commitTo_over]
    cases t.commitTo parent with
    | error m => exact congrArg (EStateM.Result.error _) (leave_over earlier s t parent)
    | ok p => exact congrArg (EStateM.Result.ok _) (leave_over earlier s p.1 p.2)
  | error f t =>
    simp only [close, endOver, settle_over]
    cases t.settle f with
    | error g u => exact congrArg (EStateM.Result.error g) (leave_over earlier s u parent)
    | ok out u => exact congrArg (EStateM.Result.ok out) (leave_over earlier s u parent)

theorem openFrame_blind (h : run.Blind) (r : Request) : Blind (openFrame run env r) := by
  intro earlier s
  cases budget : GasMeter.ofBudget? r.gas with
  | none => rw [openFrame_overdrawn budget, openFrame_overdrawn budget]; rfl
  | some meter =>
    obtain ⟨child, hchild⟩ : ∃ child, child = Frame.start s.world.opened (some s.frame)
      (r.context env.block) r.flags meter := ⟨_, rfl⟩
    cases adopted : s.frame.adopt child with
    | error m =>
      have hbusy (u : Site) (hu : u.world.opened = s.world.opened) (hf : u.frame = s.frame) :
          openFrame run env r u = .error (.misuse m) u := by
        unfold openFrame
        simp only [budget, hu, hf, ← hchild, adopted]
      rw [hbusy s rfl rfl]
      exact hbusy (s.over earlier) rfl rfl
    | ok parent =>
      have hover : openFrame run env r (s.over earlier) = close (s.over earlier) parent
          (attempt run env r ⟨(s.over earlier).world.enter child, child, ∅⟩) :=
        openFrame_adopted budget hchild adopted
      rw [hover, openFrame_adopted budget hchild adopted, ← close_over]
      exact congrArg (close (s.over earlier) parent)
        (attempt_blind h r earlier ⟨s.world.enter child, child, ∅⟩)

/-! ## Calls and invocations -/

theorem callFailed_blind (spec : CallSpec) (c : Cause) (propagated : Bool) :
    Blind (callFailed spec c propagated) := by
  unfold callFailed
  refine .ite ?_ fun _ _ => rfl
  exact (setNamed_blind _ _).bind fun _ => .get (fun _ _ => rfl) fun _ => note_blind _

theorem sendValue_blind (spec : CallSpec) (target : Address) (amount : Int) :
    Blind (sendValue spec target amount) := by
  intro earlier s
  have hsent : transfer (s.over earlier).frame.ctx.self target amount (s.over earlier) =
      endOver earlier (transfer s.frame.ctx.self target amount s) :=
    transfer_blind s.frame.ctx.self target amount earlier s
  unfold sendValue
  rw [hsent]
  cases transfer s.frame.ctx.self target amount s with
  | ok _ t => exact setNamed_blind spec.success (.bool true) earlier t
  | error f t =>
    cases f with
    | raised c p => exact callFailed_blind spec c p earlier t
    | _ => rfl

theorem callContract_blind (h : run.Blind) (spec : CallSpec) (callee : Contract) (target : Address)
    (amount : Int) (args : Args) (requested : Option Int) :
    Blind (callContract run sc spec callee target amount args requested) := by
  unfold callContract
  refine .get (fun _ _ => rfl) fun s => .get (fun _ _ => rfl) fun u => ?_
  refine .ite (callFailed_blind spec _ false) ((spend_blind _).bind fun _ => ?_)
  refine (openFrame_blind h _).bind fun out => ?_
  cases out with
  | committed v left =>
    refine (Blind.modify fun _ _ => rfl).bind fun _ => ?_
    exact (setNamed_blind _ _).bind fun _ => setResult_blind _ _
  | reverted c left =>
    exact (Blind.modify fun _ _ => rfl).bind fun _ => callFailed_blind spec c true

theorem call_blind (h : run.Blind) (spec : CallSpec) : Blind (call run sc spec) := by
  unfold call
  refine .get (fun _ _ => rfl) fun _ => (Blind.onlyIf _ (fail_blind _)).bind fun _ => ?_
  refine (Blind.onlyIf _ (fail_blind _)).bind fun _ => ?_
  refine (value_blind spec.target).bind fun v => (lift_blind _).bind fun target => ?_
  refine (optionalUint_blind spec.value).bind fun given => ?_
  refine (Blind.onlyIf _ (ensureWritable_blind _)).bind fun _ => ?_
  refine (arguments_blind spec.args).bind fun args => ?_
  refine (optionalUint_blind spec.gas).bind fun requested => ?_
  refine (spend_blind _).bind fun _ => .get (fun _ _ => rfl) fun _ => ?_
  refine .ite (callFailed_blind spec _ false) ?_
  cases sc.env.registry.find? target with
  | some callee => exact callContract_blind h spec callee target _ args requested
  | none => exact .ite (sendValue_blind spec target _) (callFailed_blind spec _ false)

theorem invocationLock_blind (f : FunctionDef) : Blind (invocationLock f) := by
  intro earlier s
  unfold invocationLock
  cases f.nonReentrant with
  | true => exact (lock_blind s.frame.ctx.self).map _ earlier s
  | false => rfl

theorem invoke_blind (h : run.Blind) (fn : String) (args : Option (Table Expr))
    (result : Option String) : Blind (invoke run sc fn args result) := by
  unfold invoke
  refine (lift_blind _).bind fun f => (spend_blind _).bind fun _ => ?_
  refine .get (fun _ _ => rfl) fun _ => (note_blind _).bind fun _ => ?_
  refine (arguments_blind args).bind fun given => (lift_blind _).bind fun bound => ?_
  refine (invocationLock_blind f.item).bind fun tokens => ?_
  refine (Blind.releasing tokens ?_).bind fun v => setResult_blind result v
  exact (Blind.freshLocals (h _ _)).bind fun flow => lift_blind _

end Exec

/-! ## Instructions -/

open Exec

variable {run : Runner} {sc : Scope}

mutual
theorem Instr.exec_blind (h : run.Blind) (i : Instr) : Blind (i.exec run sc) := by
  cases i with
  | bind name e =>
    unfold Instr.exec
    exact (value_blind e).bind fun v => (setLocal_blind name v).bind fun _ => .pure _
  | sstore key e =>
    unfold Instr.exec
    exact (ensureWritable_blind "sstore").bind fun _ => (value_blind key).bind fun k =>
      (value_blind e).bind fun v => (write_blind _ v).bind fun _ => .pure _
  | require cond reason | assert cond =>
    unfold Instr.exec
    exact (condition_blind cond).bind fun b => .ite (.pure _) (fail_blind _)
  | revert reason =>
    unfold Instr.exec
    exact fail_blind _
  | emit event args =>
    unfold Instr.exec
    exact (emit_blind event args).bind fun _ => .pure _
  | call spec =>
    unfold Instr.exec
    exact (call_blind h spec).bind fun _ => .pure _
  | invoke fn args result =>
    unfold Instr.exec
    exact (invoke_blind h fn args result).bind fun _ => .pure _
  | branch cond yes no =>
    unfold Instr.exec
    exact (condition_blind cond).bind fun b =>
      .ite (Instr.execAll_blind h yes) (Instr.execElse_blind h no)
  | ret e =>
    unfold Instr.exec
    exact (value_blind e).bind fun v => .pure _
  | selfDestruct beneficiary =>
    unfold Instr.exec
    exact (selfDestruct_blind beneficiary).bind fun _ => .pure _

theorem Instr.execAll_blind (h : run.Blind) (body : List Instr) :
    Blind (Instr.execAll run sc body) := by
  cases body with
  | nil =>
    unfold Instr.execAll
    exact .pure _
  | cons i rest =>
    unfold Instr.execAll
    refine boundary_blind.bind fun _ => (Instr.exec_blind h i).bind fun flow => ?_
    cases flow with
    | next => exact Instr.execAll_blind h rest
    | done v => exact .pure _

theorem Instr.execElse_blind (h : run.Blind) (body : Option (List Instr)) :
    Blind (Instr.execElse run sc body) := by
  cases body with
  | none =>
    unfold Instr.execElse
    exact .pure _
  | some body =>
    unfold Instr.execElse
    exact Instr.execAll_blind h body
end

theorem runBody_blind (depth : Nat) : (runBody depth).Blind := by
  induction depth with
  | zero => exact fun _ _ _ _ => rfl
  | succ depth ih => exact fun sc body => Instr.execAll_blind ih body

end ContractVM
