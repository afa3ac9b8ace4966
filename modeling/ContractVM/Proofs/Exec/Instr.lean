/-
Instructions and bodies move sites only along `Run`.

Everything here is relative to a way `run` of running other bodies that is known
to follow the relation; `runBody_follows` then ties the knot by induction on how
deep bodies may nest.
-/
import ContractVM.Proofs.Exec.Called

namespace ContractVM

namespace Exec

variable {run : Runner} {sc : Scope} {s : Site}

/-! ## Events and self-destruction -/

theorem eventValue_follows (event : String) (args : Table Expr) (f : EventField) :
    Follows (.body sc) s (eventValue sc event args f) (fun _ t => s.Paid t) := by
  unfold eventValue
  split
  · exact value_follows _
  · split
    · exact fail_follows (by nofun)
    · exact fail_follows (by nofun)

theorem eventFields_follows (event : String) (args : Table Expr) (fields : List EventField) :
    Follows (.body sc) s (eventFields sc event args fields) (fun _ t => s.Paid t) := by
  induction fields generalizing s with
  | nil => exact .pure ⟨_, .refl _, rfl⟩
  | cons f rest ih =>
    unfold eventFields
    refine (eventValue_follows event args f).bind fun v t ht => ?_
    split
    · exact ih.bind fun others u hu => .pure (ht.trans hu)
    · exact fail_follows (by nofun)

theorem emit_follows (event : String) (args : Table Expr) :
    Follows (.body sc) s (emit sc event args) Anything := by
  unfold emit
  refine (ensureWritable_follows "emit").bind fun _ t ht => ?_
  obtain ⟨rfl, may⟩ := ht
  split
  · exact fail_follows (by nofun)
  · next decl _ =>
    refine (eventFields_follows event args decl.fields).bind fun fields u hu => ?_
    refine (spend_follows ?_).bind fun _ v hv => ?_
    · have hlog : 0 ≤ Fee.log := by decide
      have htopic : 0 ≤ Fee.logTopic := by decide
      exact Int.add_nonneg hlog (Int.mul_nonneg htopic (Int.natCast_nonneg _))
    · obtain ⟨m, -, rfl⟩ := hu.trans hv
      exact (Follows.modify (Run.emit (s := t.withMeter m) may event fields)).anything

theorem selfDestruct_follows (beneficiary : Expr) :
    Follows (.body sc) s (selfDestruct sc beneficiary) Anything := by
  unfold selfDestruct
  refine (ensureWritable_follows "selfdestruct").bind fun _ t ht => ?_
  obtain ⟨rfl, may⟩ := ht
  refine (value_follows beneficiary).bind fun v u hu => ?_
  refine (lift_follows (.asAddress v)).bind fun target u' hu' => ?_
  obtain ⟨rfl, htarget⟩ := hu'
  refine (spend_follows (by decide)).bind fun _ w hw => ?_
  obtain ⟨m, -, rfl⟩ := hu.trans hw
  -- The transfer and the mark of the frame are one change of the relation.
  refine Follows.get (Follows.get ?_)
  unfold Follows
  cases hs : (t.withMeter m).world.storage.transfer (t.withMeter m).frame.ctx.self target
      ((t.withMeter m).world.storage.balanceOf (t.withMeter m).frame.ctx.self) with
  | ok storage =>
    rw [bind_ok (transfer_eq_ok hs)]
    exact ⟨.destroy (s := t.withMeter m) may (Value.isValid_of_asAddress htarget) hs, trivial⟩
  | error f =>
    rw [bind_error (transfer_eq_error hs)]
    exact transfer_error_run hs

/-! ## Invocations -/

theorem freshLocals_eq_ok {α : Type} {act : ExecM α} {t : Site} {a : α}
    (h : act { s with locals := ∅ } = .ok a t) :
    freshLocals act s = .ok a { t with locals := s.locals } := by
  unfold freshLocals
  rw [h]

theorem freshLocals_eq_error {α : Type} {act : ExecM α} {t : Site} {e : Fault}
    (h : act { s with locals := ∅ } = .error e t) :
    freshLocals act s = .error e { t with locals := s.locals } := by
  unfold freshLocals
  rw [h]

theorem invocationLock_of_unguarded {f : FunctionDef} (h : f.nonReentrant = false) (s : Site) :
    invocationLock f s = .ok [] s := by
  unfold invocationLock
  rw [if_neg (by rw [h]; exact Bool.false_ne_true)]

theorem invocationLock_of_guarded {f : FunctionDef} (h : f.nonReentrant = true) (s : Site) :
    invocationLock f s = EStateM.map (fun token => [token]) (lock s.frame.ctx.self) s := by
  unfold invocationLock
  rw [if_pos h]
  rfl

theorem invocationLock_eq_ok {f : FunctionDef} (h : f.nonReentrant = true)
    (free : s.frame.ctx.self ∉ s.world.locks) :
    invocationLock f s = .ok [⟨s.frame.ctx.self, true⟩] (s.lock s.frame.ctx.self) := by
  rw [invocationLock_of_guarded h]
  unfold EStateM.map
  rw [lock_eq_ok free]

theorem invocationLock_eq_error {f : FunctionDef} (h : f.nonReentrant = true)
    (taken : s.frame.ctx.self ∈ s.world.locks) :
    invocationLock f s = .error (.raised (.alreadyEntered s.frame.ctx.self) false) s := by
  rw [invocationLock_of_guarded h]
  unfold EStateM.map
  rw [lock_eq_error taken]

theorem releasing_eq_ok {α : Type} {tokens : List LockToken} {act : ExecM α} {s t : Site} {a : α}
    (h : act s = .ok a t) : releasing tokens act s = .ok a (t.unlock tokens) := by
  unfold releasing
  rw [h]

theorem releasing_eq_error {α : Type} {tokens : List LockToken} {act : ExecM α} {s t : Site}
    {e : Fault} (h : act s = .error e t) : releasing tokens act s = .error e (t.unlock tokens) := by
  unfold releasing
  rw [h]

/-- The body of an invoked function, up to the release of its lock.  The result is
checked before the release, which makes no difference to the site. -/
theorem releasing_reaches {u : Site} {f : Owned FunctionDef} {args : Args} {body : ExecM Flow}
    {tokens : List LockToken}
    (h : Follows (.body (sc.inner f args)) { u with locals := ∅ } body Anything)
    (ran : ∀ {e t}, Run (.body (sc.inner f args)) { u with locals := ∅ } e t →
      Run (.body sc) s e (Site.unlock { t with locals := u.locals } tokens)) :
    Reaches (.body sc) s
      (releasing tokens (freshLocals body >>= fun flow => lift (f.item.result flow)) u)
      Anything := by
  unfold Follows at h
  cases hbody : body { u with locals := ∅ } with
  | error e t =>
    rw [hbody] at h
    rw [releasing_eq_error (bind_error (freshLocals_eq_error hbody))]
    exact ran h
  | ok flow t =>
    rw [hbody] at h
    have hfresh := freshLocals_eq_ok hbody
    cases hresult : f.item.result flow with
    | ok v =>
      rw [releasing_eq_ok ((bind_ok hfresh).trans (by rw [hresult]; rfl))]
      exact ⟨ran h.1, trivial⟩
    | error c =>
      rw [releasing_eq_error ((bind_ok hfresh).trans (by rw [hresult]; rfl))]
      exact (ran h.1).trans (.raise c (Unlocked.result f.item flow c hresult))

theorem releasing_follows {fn : String} {f : Owned FunctionDef} {args : Args} {body : ExecM Flow}
    (found : invocable sc fn = .ok f)
    (h : ∀ s, Follows (.body (sc.inner f args)) s body Anything) :
    Follows (.body sc) s (invocationLock f.item >>= fun tokens => releasing tokens
      (freshLocals body >>= fun flow => lift (f.item.result flow))) Anything := by
  unfold Follows
  by_cases hguarded : f.item.nonReentrant = true
  · by_cases hl : s.frame.ctx.self ∈ s.world.locks
    · rw [bind_error (invocationLock_eq_error hguarded hl)]
      exact .blocked (.invoke fn found hguarded hl)
    · rw [bind_ok (invocationLock_eq_ok hguarded hl)]
      exact releasing_reaches (h _) (.guarded fn found hguarded hl)
  · have hunguarded := Bool.eq_false_iff.2 hguarded
    rw [bind_ok (invocationLock_of_unguarded hunguarded s)]
    exact releasing_reaches (h _) (.invoke fn found hunguarded)

theorem invoke_follows (hrun : run.Sound) (fn : String) (args : Option (Table Expr))
    (result : Option String) : Follows (.body sc) s (invoke run sc fn args result) Anything := by
  unfold invoke
  refine (lift_follows (.invocable sc fn)).bind fun f t ht => ?_
  obtain ⟨rfl, found⟩ := ht
  unfold Follows
  cases hm : t.frame.meter.charge Fee.jump with
  | error c =>
    rw [bind_error (spend_eq_error hm)]
    exact .raise c (Unlocked.charge _ _ c hm)
  | ok m =>
    rw [bind_ok (spend_eq_ok hm)]
    refine Reaches.after (.jump fn hm) ?_
    refine (arguments_follows (p := .body sc) args).bind fun given u _ => ?_
    refine (lift_follows (.bindTo f.item.params given)).bind fun bound v hv => ?_
    rw [← bind_assoc]
    exact (releasing_follows found fun w => hrun _ _ w).bind fun v w _ => setResult_follows result v

/-! ## Failed calls and plain transfers -/

theorem callFailed_follows (spec : CallSpec) {c : Cause}
    (h : Run (.body sc) s (some (.raised c false)) s) :
    Follows (.body sc) s (callFailed spec c false) Anything := by
  unfold callFailed
  split
  · refine (setNamed_follows spec.success (.bool false)).bind fun _ t _ => ?_
    exact ⟨.swallow spec.fn c, trivial⟩
  · exact h

/-- The failure of a callee is caught or goes on. -/
theorem callFailed_reaches {t t' : Site} {c : Cause} {p : Bool} {left : Int} (spec : CallSpec)
    (o : Opening sc s) (h : Run (.frame sc.env o.request) o.site (some (.raised c p)) t)
    (ended : t.revert c p = .ok (.reverted c left, t')) :
    Reaches (.body sc) s (callFailed spec c true ((o.caller.leave t' o.parent).refund left))
      Anything := by
  have hid : ((o.caller.leave t' o.parent).refund left).frame.id = s.frame.id :=
    (Run.passed o h ended).same.id
  by_cases hcaught : spec.caught.getD false = true
  · rw [callFailed_eq_ok hcaught, hid]
    exact ⟨.caught spec.fn _ o h ended, trivial⟩
  · rw [callFailed_eq_error (Bool.eq_false_iff.2 hcaught)]
    exact Run.passed o h ended

theorem call_follows (hrun : run.Sound) (spec : CallSpec) :
    Follows (.body sc) s (call run sc spec) Anything := by
  unfold Follows
  have h : Called sc spec s (call run sc spec s) := call_called hrun
  generalize call run sc spec s = r at h
  cases h with
  | thrown h => exact h
  | failed paid h => exact Reaches.after paid.run (callFailed_follows spec h)
  | sent paid valid may codeless h =>
    exact Reaches.after (paid.run.trans (.send valid may codeless h)) (setNamed_follows _ _)
  | committed paid o h ended =>
    refine Reaches.after (paid.run.trans (.committed o h ended)) ?_
    exact (setNamed_follows spec.success _).bind fun _ _ _ => setResult_follows _ _
  | reverted paid o h ended =>
    exact Reaches.after paid.run (callFailed_reaches spec o h ended)

end Exec

/-! ## Instructions -/

open Exec

variable {run : Runner} {sc : Scope}

theorem Exec.boundary_follows {s : Site} : Follows (.body sc) s boundary Anything :=
  ⟨.boundary, trivial⟩

mutual
theorem Instr.exec_follows (hrun : run.Sound) (i : Instr) (s : Site) :
    Follows (.body sc) s (i.exec run sc) Anything := by
  cases i with
  | bind name e =>
    unfold Instr.exec
    refine (value_follows e).bind fun v t _ => ?_
    exact (setLocal_follows name v).bind fun _ _ _ => .pure trivial
  | sstore key e =>
    unfold Instr.exec
    refine (ensureWritable_follows "sstore").bind fun _ t ht => ?_
    obtain ⟨rfl, may⟩ := ht
    refine (value_follows key).bind fun k u hu => ?_
    refine (value_follows e).bind fun v w hw => ?_
    obtain ⟨m, -, rfl⟩ := hu.trans hw
    exact (write_follows (s := t.withMeter m) may).bind fun _ _ _ => .pure trivial
  | require cond reason =>
    unfold Instr.exec
    refine (condition_follows cond).bind fun b t _ => ?_
    cases b with
    | true => exact .pure trivial
    | false => exact fail_follows (by nofun)
  | assert cond =>
    unfold Instr.exec
    refine (condition_follows cond).bind fun b t _ => ?_
    cases b with
    | true => exact .pure trivial
    | false => exact fail_follows (by nofun)
  | revert reason =>
    unfold Instr.exec
    exact fail_follows (by nofun)
  | emit event args =>
    unfold Instr.exec
    exact (emit_follows event args).bind fun _ _ _ => .pure trivial
  | call spec =>
    unfold Instr.exec
    exact (call_follows hrun spec).bind fun _ _ _ => .pure trivial
  | invoke fn args result =>
    unfold Instr.exec
    exact (invoke_follows hrun fn args result).bind fun _ _ _ => .pure trivial
  | branch cond yes no =>
    unfold Instr.exec
    refine (condition_follows cond).bind fun b t _ => ?_
    cases b with
    | true => exact Instr.execAll_follows hrun yes t
    | false => exact Instr.execElse_follows hrun no t
  | ret e =>
    unfold Instr.exec
    exact (value_follows e).bind fun v _ _ => .pure trivial
  | selfDestruct beneficiary =>
    unfold Instr.exec
    exact (selfDestruct_follows beneficiary).bind fun _ _ _ => .pure trivial

theorem Instr.execAll_follows (hrun : run.Sound) (body : List Instr) (s : Site) :
    Follows (.body sc) s (Instr.execAll run sc body) Anything := by
  cases body with
  | nil => exact .pure trivial
  | cons i rest =>
    unfold Instr.execAll
    refine Exec.boundary_follows.bind fun _ t _ => ?_
    refine (Instr.exec_follows hrun i t).bind fun flow u _ => ?_
    cases flow with
    | next => exact Instr.execAll_follows hrun rest u
    | done v => exact .pure trivial

theorem Instr.execElse_follows (hrun : run.Sound) (body : Option (List Instr)) (s : Site) :
    Follows (.body sc) s (Instr.execElse run sc body) Anything := by
  cases body with
  | none => exact .pure trivial
  | some body => exact Instr.execAll_follows hrun body s
end

/-- Bodies move sites only along `Run`, however deep they nest. -/
theorem runBody_follows (depth : Nat) : (runBody depth).Sound := by
  induction depth with
  | zero => exact fun _ _ _ => .exhaust
  | succ depth ih => exact fun _ body s => Instr.execAll_follows ih body s

end ContractVM
