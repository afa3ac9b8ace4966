/-
Bodies nest no deeper than gas can pay for.

`runBody depth` gives up with the fault `exhausted` where bodies would nest deeper than
`depth`.  Every way from one body into another costs at least a jump: an invocation
pays it, and the callee of a call is given less gas than its caller had, by more than
that.  So two runners that agree on bodies with less than `g` gas lead to instructions
that agree on bodies with less than `g + Fee.jump` gas (`Instr.execAll_concur`), and
with enough depth for its gas a body never gives up, and more depth makes no difference
(`runBody_concur`).
-/
import ContractVM.Proofs.Exec.Instr
import ContractVM.Proofs.Exec.Toll

namespace ContractVM

/-! ## Actions that run no body -/

/-- An action that runs no body.  Whatever it ends with, it has spent gas and made none,
and it does not end for want of depth. -/
def Plain {α : Type} (act : ExecM α) : Prop := ∀ s, match act s with
  | .ok _ t => s.frame.meter.Spends t.frame.meter
  | .error f _ => f ≠ .exhausted

namespace Plain

variable {α β : Type}

theorem pure (a : α) : Plain (Pure.pure a) := fun _ => .refl _

theorem bind {act : ExecM α} {f : α → ExecM β} (h : Plain act) (hf : ∀ a, Plain (f a)) :
    Plain (act >>= f) := by
  intro s
  have ha := h s
  cases hr : act s with
  | error e t =>
    rw [hr] at ha
    rw [Exec.bind_error hr]
    exact ha
  | ok a t =>
    rw [hr] at ha
    rw [Exec.bind_ok hr]
    have hb := hf a t
    cases hr' : f a t with
    | error e u =>
      rw [hr'] at hb
      exact hb
    | ok b u =>
      rw [hr'] at hb
      exact ha.trans hb

theorem get : Plain (MonadState.get : ExecM Site) := fun _ => .refl _

theorem modify {f : Site → Site} (h : ∀ s, (f s).frame.meter = s.frame.meter) :
    Plain (modify f : ExecM Unit) := by
  intro s
  show s.frame.meter.Spends (f s).frame.meter
  rw [h]
  exact .refl _

theorem onlyIf {b : Bool} {act : ExecM Unit} (h : Plain act) : Plain (Exec.onlyIf b act) := by
  cases b with
  | true => exact h
  | false => exact .pure ()

end Plain

namespace Exec

variable {sc : Scope}

theorem fail_plain {α : Type} (c : Cause) : Plain (fail c : ExecM α) := fun _ h => nomatch h

theorem lift_plain {α : Type} (r : Except Cause α) : Plain (lift r) := by
  intro s
  cases r with
  | ok a => exact .refl _
  | error c => exact fun h => nomatch h

theorem note_plain (step : Step) : Plain (note step) := fun _ => .refl _

theorem setLocal_plain (name : String) (v : Value) : Plain (setLocal name v) := fun _ => .refl _

theorem spend_plain {n : Int} (hn : 0 ≤ n) : Plain (spend n) := by
  intro s
  unfold spend
  cases hm : s.frame.meter.charge n with
  | ok m => exact .of_charge hn hm
  | error c => exact fun h => nomatch h

theorem transfer_plain (a b : Address) (n : Int) : Plain (transfer a b n) := by
  intro s
  unfold transfer
  cases hs : s.world.storage.transfer a b n with
  | ok storage => exact .refl _
  | error f => rcases Storage.transfer_eq_error hs with ⟨m, rfl, -⟩ | ⟨c, rfl, -⟩ <;> nofun

theorem write_plain (key : String) (v : Value) : Plain (write key v) := by
  intro s
  unfold write
  cases hs : s.world.storage.write s.frame.ctx.self key v s.frame.meter with
  | ok r =>
    obtain ⟨cls, storage, m⟩ := r
    refine .of_charge ?_ (Storage.write_eq_ok hs).2.2
    cases cls <;> decide
  | error f => rcases Storage.write_eq_error hs with ⟨m, rfl, -⟩ | ⟨c, n, rfl, -⟩ <;> nofun

theorem move_plain (next : Phase) : Plain (move next) := by
  intro s
  unfold move
  cases hf : s.frame.transition next with
  | ok f =>
    show s.frame.meter.Spends f.meter
    rw [Frame.meter_transition hf]
    exact .refl _
  | error m => exact fun h => nomatch h

theorem lock_plain (a : Address) : Plain (lock a) := by
  intro s
  by_cases h : a ∈ s.world.locks
  · rw [lock_eq_error h]
    exact fun h => nomatch h
  · rw [lock_eq_ok h]
    exact .refl _

theorem holdLock_plain (a : Address) : Plain (holdLock a) :=
  (lock_plain a).bind fun _ => .modify fun _ => rfl

theorem ensureWritable_plain (what : String) : Plain (ensureWritable sc what) := by
  intro s
  unfold ensureWritable
  by_cases h : s.frame.flags.isStatic = true
  · rw [if_pos h]
    exact fun h => nomatch h
  · rw [if_neg h]
    cases sc.mutability with
    | view | pure => exact fun h => nomatch h
    | mutating | payable => exact .refl _

theorem evaluating_plain {α : Type} {act : Sight → EvalM α} (h : ∀ v, Frugal (act v)) :
    Plain (evaluating sc act) := by
  intro s
  have hf := h (sight sc s) s.frame.meter
  unfold evaluating
  cases hr : act (sight sc s) s.frame.meter with
  | ok a m =>
    rw [hr] at hf
    exact hf
  | error c m => exact fun h => nomatch h

theorem value_plain (e : Expr) : Plain (value sc e) := evaluating_plain fun v => e.eval_frugal v

theorem arguments_plain (args : Option (Table Expr)) : Plain (arguments sc args) :=
  evaluating_plain fun v => Expr.evalArgs_frugal v _ _

theorem condition_plain (e : Expr) : Plain (condition sc e) :=
  (value_plain e).bind fun _ => lift_plain _

theorem optionalUint_plain (e : Option Expr) : Plain (optionalUint sc e) := by
  cases e with
  | none => exact .pure none
  | some e => exact (value_plain e).bind fun _ => (lift_plain _).bind fun _ => .pure _

theorem setResult_plain (name : Option String) (v : Option Value) : Plain (setResult name v) := by
  intro s
  obtain ⟨locals, h⟩ := setResult_eq (s := s) name v
  rw [h]
  exact .refl _

theorem setNamed_plain (name : Option String) (v : Value) : Plain (setNamed name v) := by
  intro s
  rw [setNamed_eq]
  exact .refl _

theorem callFailed_plain (spec : CallSpec) (c : Cause) (propagated : Bool) :
    Plain (callFailed spec c propagated) := by
  intro s
  cases caught : spec.caught.getD false with
  | true =>
    rw [callFailed_eq_ok caught]
    exact .refl _
  | false =>
    rw [callFailed_eq_error caught]
    exact fun h => nomatch h

theorem sendValue_plain (spec : CallSpec) (target : Address) (amount : Int) :
    Plain (sendValue spec target amount) := by
  intro s
  have ht := transfer_plain s.frame.ctx.self target amount s
  unfold sendValue
  cases hr : transfer s.frame.ctx.self target amount s with
  | ok a t =>
    rw [hr] at ht
    simp only [setNamed_eq]
    exact ht
  | error f t =>
    rw [hr] at ht
    cases hs : s.world.storage.transfer s.frame.ctx.self target amount with
    | ok storage =>
      rw [transfer_eq_ok hs] at hr
      cases hr
    | error g =>
      rw [transfer_eq_error hs] at hr
      cases hr
      rcases Storage.transfer_eq_error hs with ⟨m, rfl, -⟩ | ⟨c, rfl, -⟩
      · exact ht
      · exact callFailed_plain spec c false s

theorem invocationLock_plain (f : FunctionDef) : Plain (invocationLock f) := by
  intro s
  by_cases guarded : f.nonReentrant = true
  · by_cases taken : s.frame.ctx.self ∈ s.world.locks
    · rw [invocationLock_eq_error guarded taken]
      exact fun h => nomatch h
    · rw [invocationLock_eq_ok guarded taken]
      exact .refl _
  · rw [invocationLock_of_unguarded (Bool.eq_false_iff.2 guarded)]
    exact .refl _

theorem eventFields_plain (event : String) (args : Table Expr) (fields : List EventField) :
    Plain (eventFields sc event args fields) := by
  induction fields with
  | nil => exact .pure []
  | cons f rest ih =>
    have hvalue : Plain (eventValue sc event args f) := by
      unfold eventValue
      split
      · exact value_plain _
      · split
        · exact fail_plain _
        · exact fail_plain _
    refine hvalue.bind fun v => ?_
    by_cases hv : Value.conforms f.type v = true
    · rw [if_pos hv]
      exact ih.bind fun _ => .pure _
    · rw [if_neg hv]
      exact fail_plain _

theorem emit_plain (event : String) (args : Table Expr) : Plain (emit sc event args) := by
  refine (ensureWritable_plain "emit").bind fun _ => ?_
  cases sc.contract.events.get? event with
  | none => exact fail_plain _
  | some decl =>
    refine (eventFields_plain event args decl.fields).bind fun fields => ?_
    refine (spend_plain ?_).bind fun _ => .modify fun _ => rfl
    have hlog : 0 ≤ Fee.log := by decide
    have htopic : 0 ≤ Fee.logTopic := by decide
    exact Int.add_nonneg hlog (Int.mul_nonneg htopic (Int.natCast_nonneg _))

theorem selfDestruct_plain (beneficiary : Expr) : Plain (selfDestruct sc beneficiary) :=
  (ensureWritable_plain "selfdestruct").bind fun _ => (value_plain beneficiary).bind fun _ =>
    (lift_plain _).bind fun _ => (spend_plain (by decide)).bind fun _ => Plain.get.bind fun _ =>
      Plain.get.bind fun _ => (transfer_plain _ _ _).bind fun _ => .modify fun _ => rfl

end Exec

/-! ## Actions that agree -/

/-- Two actions that do the same from `s` on, and do not end there for want of depth. -/
structure Concur {α : Type} (s : Site) (act act' : ExecM α) : Prop where
  same : act s = act' s
  deep : ∀ t, act s ≠ .error .exhausted t

/-- The frame at `s` has less than `g` gas. -/
structure Site.Below (g : Int) (s : Site) : Prop where
  solvent : s.frame.meter.Solvent
  less : s.frame.meter.left < g

/-- Two runners that agree on all bodies that have less than `g` gas. -/
def Runner.Concur (g : Int) (run run' : Runner) : Prop :=
  ∀ sc body s, s.Below g → ContractVM.Concur s (run sc body) (run' sc body)

theorem Site.Below.spends {g : Int} {s t : Site} (h : s.Below g)
    (spends : s.frame.meter.Spends t.frame.meter) : t.Below g where
  solvent := h.solvent.of_spends spends
  less := Int.lt_of_le_of_lt spends.2.1 h.less

theorem Site.Below.mono {g g' : Int} {s : Site} (h : s.Below g) (hg : g ≤ g') : s.Below g' where
  solvent := h.solvent
  less := Int.lt_of_lt_of_le h.less hg

/-- Code that goes on from a site with less than `g` gas still has less. -/
theorem Site.Below.run {g : Int} {p : Place} {s t : Site} (h : s.Below g) (ran : Run p s none t) :
    t.Below g := h.spends (ran.spends .none h.solvent)

theorem Plain.concur {α : Type} {act : ExecM α} (h : Plain act) (s : Site) : Concur s act act where
  same := rfl
  deep := by
    intro t ht
    have hs := h s
    rw [ht] at hs
    exact hs rfl

namespace Concur

variable {α β : Type} {g : Int} {s : Site} {act act' : ExecM α} {k k' : α → ExecM β}

theorem bind (h : Concur s act act') (hk : ∀ a t, act s = .ok a t → Concur t (k a) (k' a)) :
    Concur s (act >>= k) (act' >>= k') := by
  cases hr : act s with
  | ok a t =>
    have hr' : act' s = .ok a t := h.same ▸ hr
    have hrest := hk a t hr
    refine ⟨?_, fun u => ?_⟩
    · rw [Exec.bind_ok hr, Exec.bind_ok hr', hrest.same]
    · rw [Exec.bind_ok hr]
      exact hrest.deep u
  | error e t =>
    have hr' : act' s = .error e t := h.same ▸ hr
    refine ⟨?_, fun u hu => ?_⟩
    · rw [Exec.bind_error hr, Exec.bind_error hr']
    · rw [Exec.bind_error hr] at hu
      cases hu
      exact h.deep t hr

/-- After an action that runs no body the frame still has less than `g` gas. -/
theorem after (below : s.Below g) (h : Plain act)
    (hk : ∀ a t, t.Below g → Concur t (k a) (k' a)) : Concur s (act >>= k) (act >>= k') := by
  refine (h.concur s).bind fun a t hr => hk a t (below.spends ?_)
  have hs := h s
  rw [hr] at hs
  exact hs

theorem get {k k' : Site → ExecM β} (h : Concur s (k s) (k' s)) :
    Concur s (MonadState.get >>= k) (MonadState.get >>= k') := ⟨h.same, h.deep⟩

theorem modify {f : Site → Site} {k k' : Unit → ExecM β} (h : Concur (f s) (k ()) (k' ())) :
    Concur s (modify f >>= k) (modify f >>= k') := ⟨h.same, h.deep⟩

theorem ite {c : Prop} [Decidable c] {els els' : ExecM α} (h : Concur s act act')
    (h' : Concur s els els') : Concur s (if c then act else els) (if c then act' else els') := by
  by_cases hc : c
  · rw [if_pos hc, if_pos hc]
    exact h
  · rw [if_neg hc, if_neg hc]
    exact h'

theorem spend {n : Int} {k k' : Unit → ExecM β}
    (hk : ∀ m, s.frame.meter.charge n = .ok m → Concur (s.withMeter m) (k ()) (k' ())) :
    Concur s (Exec.spend n >>= k) (Exec.spend n >>= k') := by
  cases hm : s.frame.meter.charge n with
  | error c =>
    have herror := Exec.spend_eq_error hm
    refine ⟨(Exec.bind_error herror).trans (Exec.bind_error herror).symm, fun t ht => ?_⟩
    rw [Exec.bind_error herror] at ht
    cases ht
  | ok m =>
    have hrest := hk m hm
    have hok := Exec.spend_eq_ok hm
    refine ⟨?_, fun t ht => ?_⟩
    · rw [Exec.bind_ok hok, Exec.bind_ok hok]
      exact hrest.same
    · rw [Exec.bind_ok hok] at ht
      exact hrest.deep t ht

/-- A fee takes the gas of the frame below what is left of `g + n`. -/
theorem spending {n : Int} {k k' : Unit → ExecM β} (hn : 0 ≤ n) (below : s.Below (g + n))
    (hk : ∀ t, t.Below g → Concur t (k ()) (k' ())) :
    Concur s (Exec.spend n >>= k) (Exec.spend n >>= k') := by
  refine .spend fun m hm => hk _ ⟨below.solvent.of_spends (.of_charge hn hm), ?_⟩
  have hless := below.less
  have hleft := GasMeter.left_charge hm
  show m.left < g
  omega

theorem freshLocals (h : Concur { s with locals := ∅ } act act') :
    Concur s (Exec.freshLocals act) (Exec.freshLocals act') := by
  unfold Exec.freshLocals
  constructor
  · simp only [h.same]
  · intro t ht
    cases hr : act { s with locals := ∅ } with
    | ok a u =>
      simp only [hr] at ht
      cases ht
    | error f u =>
      simp only [hr] at ht
      cases ht
      exact h.deep u hr

theorem releasing (tokens : List LockToken) (h : Concur s act act') :
    Concur s (Exec.releasing tokens act) (Exec.releasing tokens act') := by
  unfold Exec.releasing
  constructor
  · simp only [h.same]
  · intro t ht
    cases hr : act s with
    | ok a u =>
      simp only [hr] at ht
      cases ht
    | error f u =>
      simp only [hr] at ht
      cases ht
      exact h.deep u hr

end Concur

/-! ## Frames -/

namespace Exec

variable {g : Int} {run run' : Runner} {env : Environment} {c : Contract} {s : Site}

theorem freshLocals_below (hrun : run.Sound) {sc : Scope} {body : List Instr} {flow : Flow}
    {t : Site} (below : s.Below g) (h : freshLocals (run sc body) s = .ok flow t) : t.Below g := by
  have hfollows := hrun sc body { s with locals := ∅ }
  unfold Follows at hfollows
  cases hr : run sc body { s with locals := ∅ } with
  | ok a u =>
    rw [hr] at hfollows
    rw [freshLocals_eq_ok hr] at h
    cases h
    have hspends := hfollows.1.spends .none below.solvent
    exact below.spends hspends
  | error f u =>
    rw [freshLocals_eq_error hr] at h
    cases h

theorem constructAll_concur (hrun : run.Sound) (h : Runner.Concur g run run')
    (inits : List (Owned ConstructorDef × Args)) (s : Site) (below : s.Below g) :
    Concur s (constructAll run env c inits) (constructAll run' env c inits) := by
  induction inits generalizing s with
  | nil => exact (Plain.pure ()).concur s
  | cons i rest ih =>
    refine (Concur.freshLocals (h _ _ _ ⟨below.solvent, below.less⟩)).bind fun _ t ht => ?_
    exact ih t (freshLocals_below hrun below ht)

theorem runEntry_concur (hrun : run.Sound) (h : Runner.Concur g run run') (b : Bound)
    (below : s.Below g) : Concur s (runEntry run env c b) (runEntry run' env c b) := by
  cases b with
  | construct inits =>
    refine Concur.after below (spend_plain (by decide)) fun _ t ht => ?_
    exact (constructAll_concur hrun h inits t ht).bind fun _ u _ => (Plain.pure none).concur u
  | fallback fb =>
    refine (Concur.freshLocals (h _ _ _ ⟨below.solvent, below.less⟩)).bind fun _ t _ => ?_
    exact (Plain.pure none).concur t
  | function fn args =>
    refine (Concur.freshLocals (h _ _ _ ⟨below.solvent, below.less⟩)).bind fun flow t _ => ?_
    exact (lift_plain (fn.item.result flow)).concur t

/-- A frame with less than `g` gas does the same with both runners. -/
theorem attempt_concur (hrun : run.Sound) (h : Runner.Concur g run run') (r : Request)
    (below : s.Below g) : Concur s (attempt run env r) (attempt run' env r) := by
  refine Concur.after below (move_plain .binding) fun _ _ below => ?_
  refine Concur.after below (lift_plain _) fun c _ below => ?_
  refine Concur.after below (lift_plain (c.bind r)) fun b _ below => ?_
  refine Concur.after below (transfer_plain _ _ _).onlyIf fun _ _ below => ?_
  refine Concur.after below (holdLock_plain _).onlyIf fun _ _ below => ?_
  refine Concur.after below (move_plain .executing) fun _ _ below => ?_
  refine (runEntry_concur hrun h b below).bind fun v t _ => ?_
  exact ((move_plain .committing).bind fun _ => .pure v).concur t

theorem settle_deep {t u : Site} {f : Fault} (hf : f ≠ .exhausted) :
    t.settle f ≠ .error .exhausted u := by
  intro h
  have settles := t.settle_cases f
  rw [h] at settles
  cases settles with
  | dropped => exact hf rfl

/-- What a frame that was called from `s` hands to its caller once its code has ended. -/
def close (s : Site) (parent : Frame) :
    EStateM.Result Fault Site (Option Value) → EStateM.Result Fault Site Outcome
  | .ok v t =>
    match t.commitTo parent with
    | .ok (t', parent') => .ok (.committed v t'.frame.meter.left) (s.leave t' parent')
    | .error m => .error (.misuse m) (s.leave t parent)
  | .error fault t =>
    match t.settle fault with
    | .ok outcome t' => .ok outcome (s.leave t' parent)
    | .error fault' t' => .error fault' (s.leave t' parent)

theorem openFrame_adopted {r : Request} {meter : GasMeter} {child parent : Frame}
    (budget : GasMeter.ofBudget? r.gas = some meter)
    (hchild : child = Frame.start s.world.opened (some s.frame) (r.context env.block) r.flags meter)
    (adopted : s.frame.adopt child = .ok parent) :
    openFrame run env r s = close s parent (attempt run env r ⟨s.world.enter child, child, ∅⟩) := by
  subst hchild
  unfold openFrame
  rw [budget]
  simp only [adopted]
  rfl

theorem close_deep {parent : Frame} {res : EStateM.Result Fault Site (Option Value)}
    (h : ∀ t, res ≠ .error .exhausted t) (t : Site) : close s parent res ≠ .error .exhausted t := by
  intro ht
  unfold close at ht
  cases res with
  | ok v u =>
    simp only at ht
    split at ht <;> cases ht
  | error f u =>
    have hf : f ≠ .exhausted := fun hf => h u (hf ▸ rfl)
    simp only at ht
    split at ht
    · cases ht
    · next hs =>
      cases ht
      exact settle_deep hf hs

theorem openFrame_concur (hrun : run.Sound) (h : Runner.Concur g run run') (r : Request)
    (hgas : r.gas < g) : Concur s (openFrame run env r) (openFrame run' env r) := by
  cases budget : GasMeter.ofBudget? r.gas with
  | none =>
    refine ⟨(openFrame_overdrawn budget).trans (openFrame_overdrawn budget).symm, fun t ht => ?_⟩
    rw [openFrame_overdrawn budget] at ht
    cases ht
  | some meter =>
    by_cases busy : s.frame.active = none
    · obtain ⟨hmeter, solvent⟩ := GasMeter.ofBudget?_eq_some budget
      obtain ⟨child, hchild⟩ : ∃ child, child = Frame.start s.world.opened (some s.frame)
        (r.context env.block) r.flags meter := ⟨_, rfl⟩
      have below : Site.Below g ⟨s.world.enter child, child, ∅⟩ := by
        rw [hchild]
        refine ⟨solvent, ?_⟩
        show meter.left < g
        rw [hmeter]
        exact hgas
      have adopted : s.frame.adopt child = .ok { s.frame with active := some child.id } := by
        unfold Frame.adopt
        rw [if_neg (by rw [hchild]; exact fun h => h rfl), busy]
        rfl
      have hc : Concur _ (attempt run env r) (attempt run' env r) := attempt_concur hrun h r below
      have hrun : openFrame run env r s = _ := openFrame_adopted budget hchild adopted
      have hrun' : openFrame run' env r s = _ := openFrame_adopted budget hchild adopted
      refine ⟨by rw [hrun, hrun', hc.same], fun t ht => ?_⟩
      rw [hrun] at ht
      exact close_deep hc.deep t ht
    · refine ⟨(openFrame_busy budget busy).trans (openFrame_busy budget busy).symm, fun t ht => ?_⟩
      rw [openFrame_busy budget busy] at ht
      cases ht

/-! ## Calls and invocations -/

variable {sc : Scope}

theorem forwarded_le_left {left : Int} (hleft : 0 ≤ left) (requested : Option Int) :
    forwarded left requested ≤ left := by
  have hle := forwarded_le left requested
  have hdiv := Int.ediv_nonneg hleft (by decide : (0 : Int) ≤ 64)
  rw [Int.tdiv_eq_ediv_of_nonneg hleft] at hle
  omega

theorem callContract_concur (hrun : run.Sound) (h : Runner.Concur g run run') (spec : CallSpec)
    (callee : Contract) (target : Address) (amount : Int) (args : Args) (requested : Option Int)
    (below : s.Below (g - Fee.stipend amount)) :
    Concur s (callContract run sc spec callee target amount args requested)
      (callContract run' sc spec callee target amount args requested) := by
  unfold callContract
  refine .get (.get (.ite ((callFailed_plain spec _ false).concur s) (.spend fun m _ => ?_)))
  have hforwarded := forwarded_le_left below.solvent.nonneg requested
  have hless := below.less
  have hgas : forwarded s.frame.meter.left requested + Fee.stipend amount < g := by omega
  refine (openFrame_concur hrun h _ hgas).bind fun out t _ => ?_
  cases out with
  | committed v left =>
    exact .modify (((setNamed_plain _ _).bind fun _ => setResult_plain _ v).concur _)
  | reverted cause left => exact .modify ((callFailed_plain spec cause true).concur _)

theorem call_concur (hrun : run.Sound) (h : Runner.Concur g run run') (spec : CallSpec)
    (below : s.Below (g + Fee.jump)) : Concur s (call run sc spec) (call run' sc spec) := by
  unfold call
  refine .get ?_
  refine .after below (fail_plain _).onlyIf fun _ _ below => ?_
  refine .after below (fail_plain _).onlyIf fun _ _ below => ?_
  refine .after below (value_plain spec.target) fun v _ below => ?_
  refine .after below (lift_plain v.asAddress) fun target _ below => ?_
  refine .after below (optionalUint_plain spec.value) fun given _ below => ?_
  refine .after below (ensureWritable_plain _).onlyIf fun _ _ below => ?_
  refine .after below (arguments_plain spec.args) fun args _ below => ?_
  refine .after below (optionalUint_plain spec.gas) fun requested t below => ?_
  have hfee : g + Fee.jump ≤ (g - Fee.stipend (given.getD 0)) + Fee.ofCall (given.getD 0) := by
    unfold Fee.stipend Fee.ofCall Fee.call Fee.callValue Fee.callStipend Fee.jump
    split <;> omega
  refine .spending (ofCall_nonneg (given.getD 0)) (below.mono hfee) fun u below => .get ?_
  refine .ite ((callFailed_plain spec _ false).concur u) ?_
  cases sc.env.registry.find? target with
  | some callee =>
    exact callContract_concur hrun h spec callee target (given.getD 0) args requested below
  | none =>
    exact .ite ((sendValue_plain spec target _).concur u) ((callFailed_plain spec _ false).concur u)

theorem invoke_concur (h : Runner.Concur g run run') (fn : String)
    (args : Option (Table Expr)) (result : Option String) (below : s.Below (g + Fee.jump)) :
    Concur s (invoke run sc fn args result) (invoke run' sc fn args result) := by
  unfold invoke
  refine .after below (lift_plain (invocable sc fn)) fun f _ below => ?_
  refine .spending (by decide) below fun _ below => .get ?_
  refine .after below (note_plain _) fun _ _ below => ?_
  refine .after below (arguments_plain args) fun given _ below => ?_
  refine .after below (lift_plain (given.bindTo f.item.params)) fun bound _ below => ?_
  refine .after below (invocationLock_plain f.item) fun tokens t below => ?_
  have body : Concur t (freshLocals (run ⟨sc.env, sc.contract, f.owner,
      sc.mutability.narrower f.item.mutability, bound⟩ f.item.body)) (freshLocals (run' ⟨sc.env,
      sc.contract, f.owner, sc.mutability.narrower f.item.mutability, bound⟩ f.item.body)) :=
    .freshLocals (h _ _ _ ⟨below.solvent, below.less⟩)
  refine (Concur.releasing tokens (body.bind fun flow u _ => ?_)).bind fun v u _ => ?_
  · exact (lift_plain (f.item.result flow)).concur u
  · exact (setResult_plain result v).concur u

end Exec

/-! ## Instructions -/

open Exec

variable {g : Int} {run run' : Runner} {sc : Scope}

mutual
theorem Instr.exec_concur (hrun : run.Sound) (h : Runner.Concur g run run') (i : Instr) (s : Site)
    (below : s.Below (g + Fee.jump)) : Concur s (i.exec run sc) (i.exec run' sc) := by
  cases i with
  | bind name e =>
    unfold Instr.exec
    exact ((value_plain e).bind fun v => (setLocal_plain name v).bind fun _ => .pure _).concur s
  | sstore key e =>
    unfold Instr.exec
    exact ((ensureWritable_plain "sstore").bind fun _ => (value_plain key).bind fun k =>
      (value_plain e).bind fun v => (write_plain _ v).bind fun _ => .pure _).concur s
  | require cond reason | assert cond =>
    unfold Instr.exec
    refine .after below (condition_plain cond) fun b t _ => ?_
    cases b with
    | true => exact (Plain.pure _).concur t
    | false => exact (fail_plain _).concur t
  | revert reason =>
    unfold Instr.exec
    exact (fail_plain _).concur s
  | emit event args =>
    unfold Instr.exec
    exact ((emit_plain event args).bind fun _ => .pure _).concur s
  | call spec =>
    unfold Instr.exec
    exact (call_concur hrun h spec below).bind fun _ t _ => (Plain.pure _).concur t
  | invoke fn args result =>
    unfold Instr.exec
    exact (invoke_concur h fn args result below).bind fun _ t _ => (Plain.pure _).concur t
  | branch cond yes no =>
    unfold Instr.exec
    refine .after below (condition_plain cond) fun b t below => ?_
    cases b with
    | true => exact Instr.execAll_concur hrun h yes t below
    | false => exact Instr.execElse_concur hrun h no t below
  | ret e =>
    unfold Instr.exec
    exact ((value_plain e).bind fun v => .pure _).concur s
  | selfDestruct beneficiary =>
    unfold Instr.exec
    exact ((selfDestruct_plain beneficiary).bind fun _ => .pure _).concur s

theorem Instr.execAll_concur (hrun : run.Sound) (h : Runner.Concur g run run') (body : List Instr)
    (s : Site) (below : s.Below (g + Fee.jump)) :
    Concur s (Instr.execAll run sc body) (Instr.execAll run' sc body) := by
  cases body with
  | nil =>
    unfold Instr.execAll
    exact (Plain.pure _).concur s
  | cons i rest =>
    unfold Instr.execAll
    have boundary_plain : Plain Exec.boundary := fun _ => .refl _
    refine .after below boundary_plain fun _ t below => ?_
    refine (Instr.exec_concur hrun h i t below).bind fun flow u hu => ?_
    have hfollows : Follows (.body sc) t (i.exec run sc) Anything := Instr.exec_follows hrun i t
    unfold Follows at hfollows
    rw [hu] at hfollows
    cases flow with
    | next => exact Instr.execAll_concur hrun h rest u (below.run hfollows.1)
    | done v => exact (Plain.pure _).concur u

theorem Instr.execElse_concur (hrun : run.Sound) (h : Runner.Concur g run run')
    (body : Option (List Instr)) (s : Site) (below : s.Below (g + Fee.jump)) :
    Concur s (Instr.execElse run sc body) (Instr.execElse run' sc body) := by
  cases body with
  | none =>
    unfold Instr.execElse
    exact (Plain.pure _).concur s
  | some body =>
    unfold Instr.execElse
    exact Instr.execAll_concur hrun h body s below
end

/-- Bodies whose gas pays for less than `depth` jumps run to their end, and do so whatever
deeper nesting is allowed. -/
theorem runBody_concur {depth depth' : Nat} (hle : depth ≤ depth') :
    Runner.Concur (Fee.jump * depth) (runBody depth) (runBody depth') := by
  induction depth generalizing depth' with
  | zero =>
    intro sc body s below
    have hnonneg := below.solvent.nonneg
    have hless : s.frame.meter.left < Fee.jump * 0 := below.less
    omega
  | succ depth ih =>
    obtain ⟨deeper, rfl⟩ : ∃ deeper, depth' = deeper + 1 := ⟨depth' - 1, by omega⟩
    have h := ih (by omega : depth ≤ deeper)
    intro sc body s below
    have hjump : Fee.jump * ((depth + 1 : Nat) : Int) = Fee.jump * depth + Fee.jump := by
      rw [Int.natCast_succ, Int.mul_add, Int.mul_one]
    exact Instr.execAll_concur (runBody_follows depth) h body s (below.mono (Int.le_of_eq hjump))

end ContractVM
