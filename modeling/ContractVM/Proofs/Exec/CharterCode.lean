/-
Checked code keeps to its charter.

An emit of a contract that passed its check names a declared event, and an invoke a function
of the table, so neither fails for want of one; what an emit logs shows the fields of the
declaration.  A frame that fails for want of a function does so when its request is bound,
with nothing recorded since it was opened.  As in the other developments of this kind, all of
it is relative to a way `run` of running other bodies, and `runBody_obeys` ties the knot.
-/
import ContractVM.Proofs.Exec.Charter

namespace ContractVM

variable {T : Charter}

/-- A body that is written in the contract. -/
def Contract.Holds (c : Contract) (body : List Instr) : Prop :=
  ∀ i : Instr, i.Within body → c.Contains i

theorem Contract.holds_of_mem {c : Contract} {body : List Instr} (h : body ∈ c.bodies) :
    c.Holds body := fun _ hi => ⟨body, h, hi⟩

/-- A way to run bodies that keeps to the charter if they are written in checked contracts. -/
def Runner.Obeys (T : Charter) (run : Runner) : Prop :=
  ∀ sc body, sc.Under T → sc.contract.Holds body → ContractVM.Obeys T (run sc body) Whatever

namespace Exec

variable {run : Runner} {sc : Scope}

/-! ## Events and self-destruction -/

theorem eventValue_obeys (hsc : sc.Under T) {event : String} {args : Table Expr} {decl : EventDecl}
    (hi : sc.contract.Contains (.emit event args)) (declared : sc.contract.events.get? event = some decl)
    {f : EventField} (hf : f ∈ decl.fields) : Obeys T (eventValue sc event args f) Whatever := by
  unfold eventValue
  split
  · exact value_obeys _
  · next hunset =>
    split
    · exact fail_obeys fun _ => trivial
    · refine fail_obeys fun _ => hsc.contract.unset event f.name ?_
      exact ⟨args, decl, hi, declared, List.mem_map_of_mem hf, hunset⟩

/-- The fields that are logged are those of the declaration. -/
theorem eventFields_obeys (hsc : sc.Under T) {event : String} {args : Table Expr} {decl : EventDecl}
    (hi : sc.contract.Contains (.emit event args)) (declared : sc.contract.events.get? event = some decl)
    (fields : List EventField) (hfields : ∀ f ∈ fields, f ∈ decl.fields) :
    Obeys T (eventFields sc event args fields) fun l =>
      l.map (fun f => (f.name, f.indexed)) = fields.map fun f => (f.name, f.isIndexed) := by
  induction fields with
  | nil => exact .pure rfl
  | cons f rest ih =>
    unfold eventFields
    refine (eventValue_obeys hsc hi declared (hfields f List.mem_cons_self)).bind fun v _ => ?_
    refine .ite ?_ (fail_obeys fun _ => trivial)
    refine (ih fun g hg => hfields g (List.mem_cons_of_mem f hg)).bind fun others hothers => .pure ?_
    rw [List.map_cons, List.map_cons, hothers]

theorem emit_obeys (hsc : sc.Under T) {event : String} {args : Table Expr}
    (hi : sc.contract.Contains (.emit event args)) : Obeys T (emit sc event args) Whatever := by
  obtain ⟨decl, declared, -⟩ := Contract.sound_of_check hsc.contract.check hi
  unfold emit
  refine (ensureWritable_obeys "emit").bind fun _ _ => ?_
  simp only [declared]
  refine (eventFields_obeys hsc hi declared decl.fields fun _ hf => hf).bind fun fields hfields => ?_
  refine (spend_obeys _).bind fun _ _ => .modify fun s hs => ⟨fun e he => ?_, trivial, hs.trail⟩
  rcases List.mem_append.1 he with he | he
  · exact hs.pending e he
  · rw [List.mem_singleton.1 he]
    exact hsc.contract.logs _ ⟨decl, declared, hfields⟩

theorem selfDestruct_obeys (beneficiary : Expr) :
    Obeys T (selfDestruct sc beneficiary) Whatever := by
  unfold selfDestruct
  refine (ensureWritable_obeys "selfdestruct").bind fun _ _ => ?_
  refine (value_obeys beneficiary).bind fun v _ => ?_
  refine (check_obeys (.asAddress v)).bind fun target _ => (spend_obeys _).bind fun _ _ => ?_
  refine .get fun _ => .get fun _ => (transfer_obeys _ _ _).bind fun _ _ => ?_
  exact .modify fun s hs => ⟨hs.pending, trivial, hs.trail⟩

/-! ## Invocations -/

theorem invocationLock_obeys (f : FunctionDef) : Obeys T (invocationLock f) Whatever := by
  intro s hs
  unfold invocationLock
  cases f.nonReentrant with
  | true => exact ((lock_obeys s.frame.ctx.self).map _) s hs
  | false => exact ⟨hs, trivial⟩

/-- An invocation of a function of the table fails for reasons other than the lack of one. -/
theorem ordinary_invocable {fn : String} {f : Owned FunctionDef}
    (h : sc.contract.functions.get? fn = some f) : Ordinary (invocable sc fn) := by
  unfold invocable
  simp only [h]
  split
  · exact .error rfl
  · split
    · exact .error rfl
    · exact .ok _

theorem invoke_obeys (hrun : run.Obeys T) (hsc : sc.Under T) {fn : String}
    {args : Option (Table Expr)} {result : Option String}
    (hi : sc.contract.Contains (.invoke fn args result)) :
    Obeys T (invoke run sc fn args result) Whatever := by
  obtain ⟨f, hf⟩ := Contract.sound_of_check hsc.contract.check hi
  unfold invoke
  refine (lift_obeys (ordinary_invocable hf) fun f hf => body_mem_of_invocable hf).bind
    fun f hbody => ?_
  refine (spend_obeys _).bind fun _ _ => .get fun s => (note_obeys fun _ => by trivial).bind fun _ _ => ?_
  refine (arguments_obeys args).bind fun given _ => ?_
  refine (check_obeys (.bindTo _ _)).bind fun bound _ => ?_
  refine (invocationLock_obeys f.item).bind fun tokens _ => ?_
  refine (releasing_obeys (Q := Whatever) tokens ?_).bind fun v _ => setResult_obeys result v
  have hbody : sc.contract.Holds f.item.body := Contract.holds_of_mem hbody
  exact (freshLocals_obeys (hrun ⟨_, _, f.owner, _, bound⟩ _ ⟨hsc.env, hsc.contract⟩ hbody)).bind
    fun flow _ => check_obeys (.result f.item flow)

/-! ## Calls -/

theorem callFailed_passes (spec : CallSpec) {c : Cause} {propagated : Bool} {s : Site}
    (hs : s.Under T) (h : T.Allows s.world.trail propagated c) :
    Passes T Whatever (callFailed spec c propagated s) := by
  unfold callFailed
  split
  · exact ((setNamed_obeys _ _).bind fun _ _ => .get fun _ => note_obeys fun _ => by trivial) s hs
  · exact .raised hs h

theorem sendValue_obeys (spec : CallSpec) (target : Address) (amount : Int) :
    Obeys T (sendValue spec target amount) Whatever := by
  intro s hs
  have h := transfer_obeys (T := T) s.frame.ctx.self target amount s hs
  unfold sendValue
  cases hr : transfer s.frame.ctx.self target amount s with
  | ok _ t =>
    rw [hr] at h
    exact setNamed_obeys spec.success _ t h.1
  | error f t =>
    rw [hr] at h
    cases f with
    | raised c p => exact callFailed_passes spec h.1 (h.2 c p rfl)
    | _ => exact h

/-! ## The end of a frame -/

/-- The report of a frame after the steps `t`, which may be passed on. -/
def Reports (T : Charter) (t : Trail) : Outcome → Prop
  | .committed _ _ => True
  | .reverted c _ => T.Allows t true c

/-- A frame whose code may end so: the charter allows its failure, or it never began. -/
def Leads (T : Charter) : EStateM.Result Fault Site (Option Value) → Prop
  | .ok _ t => t.Under T
  | .error f t => t.Under T ∧ ∀ c p, f = .raised c p → T.Admits t.frame.id t.world.trail p c

variable {s t t' : Site} {parent : Frame} {f : Fault} {out : Outcome}

theorem settle_allowed (ht : t.Under T)
    (hf : ∀ c p, f = .raised c p → T.Admits t.frame.id t.world.trail p c)
    (h : t.settle f = .ok out t') : t'.world.trail.Allowed T ∧ Reports T t'.world.trail out := by
  have settles := t.settle_cases f
  rw [h] at settles
  cases settles with
  | @reverted c p _ _ ended =>
    obtain ⟨f, g, storage, moved, -, done, rfl, rfl⟩ := Site.revert_eq ended
    have hid : g.id = t.frame.id := by
      rw [(Frame.transition_eq_ok done).2, (Frame.transition_eq_ok moved).2]
      rfl
    have hfailure := hf c p rfl
    refine ⟨⟨?_, ht.trail⟩, ?_⟩
    · show T.Admits g.id t.world.trail p c
      rw [hid]
      exact hfailure
    · rcases hfailure with allowed | ⟨rfl, ⟨contract, fn, rfl⟩, -⟩
      · exact allowed.later (fun _ hstep => List.mem_cons_of_mem _ hstep) fun _ => rfl
      · exact ⟨rfl, g.id, g.depth, g.ctx.codeAddress, g.meter.left, List.mem_cons_self⟩

theorem settle_foreign_fault {g : Fault} (ht : t.Under T) (h : t.settle f = .error g t') :
    t'.world.trail.Allowed T ∧ ∀ c p, g ≠ .raised c p := by
  have settles := t.settle_cases f
  rw [h] at settles
  cases settles with
  | dropped foreign => exact ⟨ht.trail, foreign⟩
  | misused => exact ⟨ht.trail, nofun⟩

/-- What a caller gets back of a frame that it opened: a report, or a fault of no frame. -/
def Returns (T : Charter) : EStateM.Result Fault Site Outcome → Prop
  | .ok out t => t.Under T ∧ Reports T t.world.trail out
  | .error f t => t.Under T ∧ ∀ c p, f ≠ .raised c p

/-- What is done with a report may depend on the steps that were recorded when it came. -/
theorem Returns.bind {α : Type} {Q : α → Prop} {act : ExecM Outcome} {k : Outcome → ExecM α}
    (h : ∀ s, s.Under T → Returns T (act s))
    (hk : ∀ out s, s.Under T → Reports T s.world.trail out → Passes T Q (k out s)) :
    Obeys T (act >>= k) Q := by
  intro s hs
  have returns := h s hs
  cases hr : act s with
  | ok out t =>
    rw [hr] at returns
    rw [bind_ok hr]
    exact hk out t returns.1 returns.2
  | error f t =>
    rw [hr] at returns
    rw [bind_error hr]
    exact ⟨returns.1, fun c p heq => absurd heq (returns.2 c p)⟩

/-- However the code of a callee has ended, its caller is under the charter. -/
theorem close_returns (s : Site) (hparent : ∀ e ∈ parent.pending, T.logs e)
    {res : EStateM.Result Fault Site (Option Value)} (h : Leads T res) :
    Returns T (close s parent res) := by
  have hleave : ∀ {t : Site} {parent : Frame}, t.world.trail.Allowed T →
      (∀ e ∈ parent.pending, T.logs e) → (s.leave t parent).Under T := by
    intro t parent htrail hpending
    refine ⟨?_, htrail.releases _ _⟩
    show ∀ e ∈ (parent.release t.frame).pending, T.logs e
    unfold Frame.release
    split <;> exact hpending
  unfold close
  cases res with
  | ok v t =>
    have ht : t.Under T := h
    simp only
    cases ended : t.commitTo parent with
    | error m => exact ⟨hleave ht.trail hparent, nofun⟩
    | ok r =>
      obtain ⟨t', parent'⟩ := r
      obtain ⟨d, storage, f, -, -, rfl, rfl⟩ := Site.commitTo_eq ended
      refine ⟨hleave ⟨trivial, ht.trail⟩ fun e he => ?_, trivial⟩
      rcases List.mem_append.1 he with he | he
      · exact hparent e he
      · exact ht.pending e he
  | error f t =>
    obtain ⟨ht, hf⟩ := h
    simp only
    cases hr : t.settle f with
    | ok out t' =>
      obtain ⟨htrail, hout⟩ := settle_allowed ht hf hr
      refine ⟨hleave htrail hparent, ?_⟩
      cases out with
      | committed => trivial
      | reverted c left => exact hout.later (fun _ hstep => List.mem_append_right _ hstep) id
    | error g t' =>
      obtain ⟨htrail, hg⟩ := settle_foreign_fault ht hr
      exact ⟨hleave htrail hparent, hg⟩

/-! ## Frames -/

variable {env : Environment} {r : Request} {callee : Contract}

theorem constructAll_obeys (hrun : run.Obeys T) (henv : env.Under T) (hcallee : callee.Meets T)
    {inits : List (Owned ConstructorDef × Args)}
    (hinits : ∀ i ∈ inits, i.1.item.body ∈ callee.bodies) :
    Obeys T (constructAll run env callee inits) Whatever := by
  induction inits with
  | nil => exact .pure trivial
  | cons i rest ih =>
    have hbody := Contract.holds_of_mem (hinits i List.mem_cons_self)
    exact (freshLocals_obeys (hrun _ _ ⟨henv, hcallee⟩ hbody)).bind fun _ _ =>
      ih fun j hj => hinits j (List.mem_cons_of_mem i hj)

theorem runEntry_obeys (hrun : run.Obeys T) (henv : env.Under T) (hcallee : callee.Meets T)
    {b : Bound} (hb : b.Unsigned callee) : Obeys T (runEntry run env callee b) Whatever := by
  cases b with
  | construct inits =>
    refine (spend_obeys _).bind fun _ _ => ?_
    exact (constructAll_obeys hrun henv hcallee fun i hi => (hb i hi).1).bind fun _ _ => .pure trivial
  | fallback fb =>
    exact (freshLocals_obeys (hrun _ _ ⟨henv, hcallee⟩ (Contract.holds_of_mem hb))).bind
      fun _ _ => .pure trivial
  | function fn args =>
    exact (freshLocals_obeys (hrun _ _ ⟨henv, hcallee⟩ (Contract.holds_of_mem hb.1))).bind
      fun flow _ => check_obeys (.result _ flow)

/-- A request that cannot be bound fails for an ordinary reason or for want of a function. -/
theorem bind_error_cases {c : Cause} (h : callee.bind r = .error c) :
    c.ordinary = true ∨ ∃ contract fn, c = .noFunction contract fn := by
  unfold Contract.bind at h
  split at h
  · exact .inl (Ordinary.bindConstructors callee r c h)
  · unfold Contract.bindNamed at h
    split at h
    · split at h
      · cases h
        exact .inl rfl
      · split at h
        · cases h
          exact .inl rfl
        · split at h
          · next hargs =>
            cases h
            exact .inl (Ordinary.bindTo _ _ c hargs)
          · cases h
    · split at h
      · split at h <;> cases h
        exact .inl rfl
      · cases h
        exact .inr ⟨_, _, rfl⟩

theorem leads_of_passes {Q : Option Value → Prop} {res : EStateM.Result Fault Site (Option Value)}
    (h : Passes T Q res) : Leads T res := by
  cases res with
  | ok v t => exact h.1
  | error f t => exact ⟨h.1, fun c p heq => .inl (h.2 c p heq)⟩

theorem bind_lift_error {α β : Type} {c : Cause} {f : α → ExecM β} {s : Site} :
    (lift (.error c) >>= f) s = .error (.raised c false) s := bind_error rfl

theorem bind_lift_ok {α β : Type} {a : α} {f : α → ExecM β} {s : Site} :
    (lift (.ok a) >>= f) s = f a s := bind_ok rfl

/-- What a frame does once its request is bound. -/
theorem runBound_obeys (hrun : run.Obeys T) (henv : env.Under T) (hcallee : callee.Meets T)
    {r : Request} {b : Bound} (bound : callee.bind r = .ok b) :
    Obeys T (do
      onlyIf r.transfers (transfer r.caller r.storageAddress r.value)
      onlyIf (callee.takesLock r) (holdLock r.storageAddress)
      move .executing
      let v ← runEntry run env callee b
      move .committing
      return v) Whatever := by
  refine (onlyIf_obeys _ (transfer_obeys _ _ _)).bind fun _ _ => ?_
  refine (onlyIf_obeys _ (holdLock_obeys _)).bind fun _ _ => ?_
  refine (move_obeys .executing).bind fun _ _ => ?_
  refine (runEntry_obeys hrun henv hcallee (Contract.unsigned_bind bound)).bind fun v _ => ?_
  exact (move_obeys .committing).bind fun _ _ => .pure trivial

/-- A frame that has just been opened ends as the charter allows. -/
theorem attempt_leads (hrun : run.Obeys T) (henv : env.Under T) (r : Request) (hs : s.Under T)
    (opened : ∃ parent depth self code budget earlier,
      s.world.trail = .opened s.frame.id parent depth self code budget :: earlier) :
    Leads T (attempt run env r s) := by
  unfold attempt
  cases moved : s.frame.transition .binding with
  | error m =>
    have hmove : move .binding s = .error (.misuse m) s := by
      unfold move
      rw [moved]
    rw [bind_error hmove]
    exact ⟨hs, nofun⟩
  | ok f =>
    have hf := (Frame.transition_eq_ok moved).2
    have hmove : move .binding s = .ok () { s with frame := f } := by
      unfold move
      rw [moved]
    have hunder : Site.Under { s with frame := f } T := hs.of_same (by rw [hf]) rfl
    have hid : f.id = s.frame.id := by rw [hf]
    rw [bind_ok hmove]
    cases found : env.registry.lookup r.codeAddress with
    | error c =>
      rw [bind_lift_error]
      exact leads_of_passes (Q := Whatever)
        (.raised hunder (Charter.allows_of_ordinary (Ordinary.lookup _ _ c found) _ false))
    | ok callee =>
      have hcallee : callee.Meets T := by
        unfold Registry.lookup at found
        split at found
        · next hfind =>
          cases found
          exact henv.contracts _ _ hfind
        · cases found
      rw [bind_lift_ok]
      cases bound : callee.bind r with
      | error c =>
        rw [bind_lift_error]
        refine ⟨hunder, fun c' p heq => ?_⟩
        cases heq
        rcases bind_error_cases bound with ordinary | missing
        · exact .inl (Charter.allows_of_ordinary ordinary _ false)
        · exact .inr ⟨rfl, missing, by rw [hid]; exact opened⟩
      | ok b =>
        rw [bind_lift_ok]
        exact leads_of_passes (runBound_obeys hrun henv hcallee bound _ hunder)

theorem openFrame_returns (hrun : run.Obeys T) (henv : env.Under T) (r : Request)
    (hs : s.Under T) : Returns T (openFrame run env r s) := by
  cases budget : GasMeter.ofBudget? r.gas with
  | none =>
    have hnone : openFrame run env r s = .error .negativeBudget s := by
      unfold openFrame
      simp only [budget]
    rw [hnone]
    exact ⟨hs, nofun⟩
  | some meter =>
    obtain ⟨child, hchild⟩ : ∃ child, child = Frame.start s.world.opened (some s.frame)
      (r.context env.block) r.flags meter := ⟨_, rfl⟩
    have hsite : Site.Under ⟨s.world.enter child, child, ∅⟩ T := by
      rw [hchild]
      exact ⟨fun _ he => absurd he List.not_mem_nil, trivial, hs.trail⟩
    cases adopted : s.frame.adopt child with
    | ok parent =>
      rw [openFrame_adopted budget hchild adopted]
      have hparent : parent.pending = s.frame.pending := by
        unfold Frame.adopt at adopted
        split at adopted
        · cases adopted
        · split at adopted <;> cases adopted
          rfl
      exact close_returns s (hparent ▸ hs.pending)
        (attempt_leads hrun henv r hsite ⟨_, _, _, _, _, _, rfl⟩)
    | error m =>
      have hbusy : openFrame run env r s = .error (.misuse m) s := by
        unfold openFrame
        simp only [budget, ← hchild, adopted]
      rw [hbusy]
      exact ⟨hs, nofun⟩

theorem refund_obeys (left : Int) :
    Obeys T (modify fun s => s.withMeter (s.frame.meter.refund left)) Whatever :=
  .modify fun _ hs => hs.of_same rfl rfl

theorem callContract_obeys (hrun : run.Obeys T) (hsc : sc.Under T) (spec : CallSpec)
    (callee : Contract) (target : Address) (amount : Int) (args : Args) (requested : Option Int) :
    Obeys T (callContract run sc spec callee target amount args requested) Whatever := by
  unfold callContract
  refine .get fun s => .get fun _ => .ite (fun _ hs => callFailed_passes spec hs trivial) ?_
  refine (spend_obeys _).bind fun _ _ => ?_
  refine Returns.bind (fun _ hs => openFrame_returns hrun hsc.env _ hs) fun out u hu hout => ?_
  cases out with
  | committed v left =>
    refine ((refund_obeys left).bind fun _ _ => ?_) u hu
    exact (setNamed_obeys spec.success _).bind fun _ _ => setResult_obeys _ v
  | reverted c left =>
    have hrefunded : (u.withMeter (u.frame.meter.refund left)).Under T := hu.of_same rfl rfl
    exact callFailed_passes spec hrefunded hout

theorem call_obeys (hrun : run.Obeys T) (hsc : sc.Under T) (spec : CallSpec) :
    Obeys T (call run sc spec) Whatever := by
  unfold call
  refine .get fun _ => (onlyIf_obeys _ (fail_obeys fun _ => by trivial)).bind fun _ _ => ?_
  refine (onlyIf_obeys _ (fail_obeys fun _ => by trivial)).bind fun _ _ => ?_
  refine (value_obeys spec.target).bind fun v _ => (check_obeys (.asAddress v)).bind fun target _ => ?_
  refine (optionalUint_obeys spec.value).bind fun given _ => ?_
  refine (onlyIf_obeys _ (ensureWritable_obeys _)).bind fun _ _ => ?_
  refine (arguments_obeys spec.args).bind fun args _ => ?_
  refine (optionalUint_obeys spec.gas).bind fun requested _ => ?_
  refine (spend_obeys _).bind fun _ _ => .get fun _ => ?_
  refine .ite (fun _ hs => callFailed_passes spec hs trivial) ?_
  cases sc.env.registry.find? target with
  | some callee => exact callContract_obeys hrun hsc spec callee target _ args requested
  | none =>
    exact .ite (sendValue_obeys spec target _) fun _ hs => callFailed_passes spec hs trivial

end Exec

/-! ## Instructions -/

open Exec

variable {run : Runner} {sc : Scope}

theorem Contract.Holds.cons {c : Contract} {i : Instr} {rest : List Instr}
    (h : c.Holds (i :: rest)) : c.Contains i ∧ c.Holds rest :=
  ⟨h i (.here List.mem_cons_self), fun _ hj => h _ (hj.mono fun _ hk => List.mem_cons_of_mem i hk)⟩

mutual
theorem Instr.exec_obeys (hrun : run.Obeys T) (hsc : sc.Under T) (i : Instr)
    (hi : ∀ j : Instr, j.Within [i] → sc.contract.Contains j) :
    Obeys T (i.exec run sc) Whatever := by
  have hself : sc.contract.Contains i := hi i (.here List.mem_cons_self)
  cases i with
  | bind name e =>
    unfold Instr.exec
    exact (value_obeys e).bind fun v _ => (setLocal_obeys name v).bind fun _ _ => .pure trivial
  | sstore key e =>
    unfold Instr.exec
    refine (ensureWritable_obeys "sstore").bind fun _ _ => (value_obeys key).bind fun k _ => ?_
    exact (value_obeys e).bind fun v _ => (write_obeys _ v).bind fun _ _ => .pure trivial
  | require cond reason | assert cond =>
    unfold Instr.exec
    exact (condition_obeys cond).bind fun b _ => .ite (.pure trivial) (fail_obeys fun _ => trivial)
  | revert reason =>
    unfold Instr.exec
    exact fail_obeys fun _ => trivial
  | emit event args =>
    unfold Instr.exec
    exact (emit_obeys hsc hself).bind fun _ _ => .pure trivial
  | call spec =>
    unfold Instr.exec
    exact (call_obeys hrun hsc spec).bind fun _ _ => .pure trivial
  | invoke fn args result =>
    unfold Instr.exec
    exact (invoke_obeys hrun hsc hself).bind fun _ _ => .pure trivial
  | branch cond yes no =>
    unfold Instr.exec
    refine (condition_obeys cond).bind fun b _ => .ite ?_ ?_
    · exact Instr.execAll_obeys hrun hsc yes fun j hj => hi j (.yes List.mem_cons_self hj)
    · exact Instr.execElse_obeys hrun hsc no fun body hno j hj =>
        hi j (.no (by rw [hno]; exact List.mem_cons_self) hj)
  | ret e =>
    unfold Instr.exec
    exact (value_obeys e).bind fun _ _ => .pure trivial
  | selfDestruct beneficiary =>
    unfold Instr.exec
    exact (selfDestruct_obeys beneficiary).bind fun _ _ => .pure trivial

theorem Instr.execAll_obeys (hrun : run.Obeys T) (hsc : sc.Under T) (body : List Instr)
    (hbody : sc.contract.Holds body) : Obeys T (Instr.execAll run sc body) Whatever := by
  cases body with
  | nil => exact .pure trivial
  | cons i rest =>
    unfold Instr.execAll
    refine boundary_obeys.bind fun _ _ => ?_
    have hfirst : ∀ j : Instr, j.Within [i] → sc.contract.Contains j := fun j hj =>
      hbody j (hj.mono fun k hk => List.mem_singleton.1 hk ▸ List.mem_cons_self)
    refine (Instr.exec_obeys hrun hsc i hfirst).bind fun flow _ => ?_
    cases flow with
    | next => exact Instr.execAll_obeys hrun hsc rest hbody.cons.2
    | done v => exact .pure trivial

theorem Instr.execElse_obeys (hrun : run.Obeys T) (hsc : sc.Under T) (body : Option (List Instr))
    (hbody : ∀ b, body = some b → sc.contract.Holds b) :
    Obeys T (Instr.execElse run sc body) Whatever := by
  cases body with
  | none => exact .pure trivial
  | some body =>
    unfold Instr.execElse
    exact Instr.execAll_obeys hrun hsc body (hbody body rfl)
end

/-- Bodies of checked contracts keep to the charter, however deep they nest. -/
theorem runBody_obeys (depth : Nat) : (runBody depth).Obeys T := by
  induction depth with
  | zero => exact fun _ _ _ _ _ hs => ⟨hs, nofun⟩
  | succ depth ih => exact fun _ body hsc hbody => Instr.execAll_obeys ih hsc body hbody

end ContractVM
