/-
Instructions and frames keep their sites free of negative integers.

As with `Follows`, everything here is relative to a way `run` of running other bodies, and
`runBody_polite` ties the knot.  A callee needs the argument that its caller has: what it
is sent is not negative either, neither value nor gas, so that its own site is one where
nothing is negative.
-/
import ContractVM.Proofs.Exec.Nesting
import ContractVM.Proofs.Exec.Polite

namespace ContractVM

/-- A way to run bodies that asks for no negative budget unless they do. -/
def Runner.Polite (run : Runner) : Prop :=
  ∀ sc body, sc.Unsigned → Contract.unsignedBody body = true → Keeps (run sc body) Whatever

/-- The report of a frame, with gas and a value that are not negative. -/
def Outcome.Unsigned : Outcome → Prop
  | .committed v left => 0 ≤ left ∧ ∀ w, v = some w → w.unsigned = true
  | .reverted _ left => 0 ≤ left

theorem Scope.Unsigned.body {sc : Scope} (h : sc.Unsigned) {body : List Instr}
    (hbody : body ∈ sc.contract.bodies) : Contract.unsignedBody body = true :=
  List.all_eq_true.1 h.contract body hbody

namespace Exec

variable {run : Runner} {sc : Scope}

/-! ## Events and self-destruction -/

section Scope

variable (hsc : sc.Unsigned)

include hsc

theorem eventValue_keeps (event : String) (args : Table Expr) (f : EventField) :
    Keeps (eventValue sc event args f) Whatever := by
  unfold eventValue
  split
  · exact operand_keeps hsc _
  · split
    · exact fail_keeps _
    · exact fail_keeps _

/-- The fields of an event are of their types. -/
theorem eventFields_keeps (event : String) (args : Table Expr) (fields : List EventField) :
    Keeps (eventFields sc event args fields) fun l => ∀ f ∈ l, f.value.unsigned = true := by
  induction fields with
  | nil => exact .pure fun _ hf => nomatch hf
  | cons f rest ih =>
    unfold eventFields
    refine (eventValue_keeps hsc event args f).bind fun v _ => ?_
    split
    · next hconforms =>
      refine ih.bind fun others hothers => .pure fun g hg => ?_
      rcases List.mem_cons.1 hg with rfl | hg
      · exact Value.unsigned_of_conforms hconforms
      · exact hothers g hg
    · exact fail_keeps _

theorem emit_keeps (event : String) (args : Table Expr) : Keeps (emit sc event args) Whatever := by
  unfold emit
  refine (ensureWritable_keeps "emit").bind fun _ _ => ?_
  split
  · exact fail_keeps _
  · next decl _ =>
    refine (eventFields_keeps hsc event args decl.fields).bind fun fields hfields => ?_
    refine (spend_keeps ?_).bind fun _ _ => ?_
    · have hlog : 0 ≤ Fee.log := by decide
      have htopic : 0 ≤ Fee.logTopic := by decide
      exact Int.add_nonneg hlog (Int.mul_nonneg htopic (Int.natCast_nonneg _))
    · exact .modify fun s hs => ⟨hs.storage, hs.locals, hs.frame.emit hfields⟩

theorem selfDestruct_keeps (beneficiary : Expr) : Keeps (selfDestruct sc beneficiary) Whatever := by
  unfold selfDestruct
  refine (ensureWritable_keeps "selfdestruct").bind fun _ _ => ?_
  refine (operand_keeps hsc beneficiary).bind fun v _ => ?_
  refine (lift_keeps (Q := Whatever) fun _ _ => trivial).bind fun target _ => ?_
  refine (spend_keeps (by decide)).bind fun _ _ => ?_
  refine .get fun _ _ => .get fun _ _ => (transfer_keeps _ _ _).bind fun _ _ => ?_
  exact .modify fun s hs => ⟨hs.storage, hs.locals, hs.frame.terminate _⟩

/-! ## Invocations -/

omit hsc in
theorem invocationLock_keeps (f : FunctionDef) : Keeps (invocationLock f) Whatever := by
  intro s hs
  unfold invocationLock
  cases f.nonReentrant with
  | true => exact ((lock_keeps s.frame.ctx.self).map _) s hs
  | false => exact ⟨hs, trivial⟩

omit hsc in
theorem body_mem_of_invocable {fn : String} {f : Owned FunctionDef} (h : invocable sc fn = .ok f) :
    f.item.body ∈ sc.contract.bodies := by
  unfold invocable at h
  split at h
  · cases h
  · next hget =>
    split at h
    · cases h
    · split at h
      · cases h
      · cases h
        exact Contract.body_mem_of_get? hget

theorem invoke_keeps (hrun : run.Polite) (fn : String) (args : Option (Table Expr))
    (result : Option String) : Keeps (invoke run sc fn args result) Whatever := by
  unfold invoke
  refine (lift_keeps fun f hf => body_mem_of_invocable hf).bind fun f hbody => ?_
  refine (spend_keeps (by decide)).bind fun _ _ => .get fun s _ => (note_keeps _).bind fun _ _ => ?_
  refine (arguments_keeps hsc args).bind fun given _ => ?_
  refine (lift_keeps fun bound hbound => Args.unsigned_bindTo hbound).bind fun bound hbound => ?_
  refine (invocationLock_keeps f.item).bind fun tokens _ => ?_
  refine (releasing_keeps tokens ?_).bind fun v hv => setResult_keeps result hv
  refine (freshLocals_keeps (hrun ⟨_, _, f.owner, _, bound⟩ _ ⟨hsc.env, hsc.contract, hbound⟩
    (hsc.body hbody))).bind
    fun flow _ => lift_keeps fun v hv => FunctionDef.unsigned_result hv

end Scope

/-! ## Calls -/

theorem callFailed_keeps (spec : CallSpec) (c : Cause) (propagated : Bool) :
    Keeps (callFailed spec c propagated) Whatever := by
  unfold callFailed
  split
  · exact (setNamed_keeps _ rfl).bind fun _ _ => .get fun _ _ => note_keeps _
  · exact fun _ hs => ⟨hs, nofun⟩

theorem sendValue_keeps (spec : CallSpec) (target : Address) (amount : Int) :
    Keeps (sendValue spec target amount) Whatever := by
  intro s hs
  have h := transfer_keeps s.frame.ctx.self target amount s hs
  unfold sendValue
  cases hr : transfer s.frame.ctx.self target amount s with
  | ok _ t =>
    rw [hr] at h
    exact setNamed_keeps spec.success rfl t h.1
  | error f t =>
    rw [hr] at h
    cases f with
    | raised c p => exact callFailed_keeps spec c p t h.1
    | _ => exact h

end Exec

/-! ## The end of a frame -/

namespace Frame.Unsigned

variable {f child parent : Frame}

theorem adopt (h : f.Unsigned) (adopted : f.adopt child = .ok parent) : parent.Unsigned := by
  unfold Frame.adopt at adopted
  split at adopted
  · cases adopted
  · split at adopted
    · cases adopted
    · cases adopted
      exact { h with }

/-- A frame takes over the events of a callee. -/
theorem takeOver (h : f.Unsigned) (hchild : child.Unsigned) (terminations : List Address) :
    { f with terminations := terminations, pending := f.pending ++ child.pending : Frame }.Unsigned := by
  refine ⟨h.ctx, h.meter, fun e he => ?_⟩
  rcases List.mem_append.1 he with he | he
  · exact h.pending e he
  · exact hchild.pending e he

end Frame.Unsigned

theorem GasMeter.Solvent.refund {m : GasMeter} (h : m.Solvent) {n : Int} (hn : 0 ≤ n) :
    (m.refund n).Solvent where
  nonneg := by
    have hleft := h.nonneg
    have hbudget := h.le
    unfold GasMeter.refund
    simp only
    split <;> omega
  le := m.left_refund_le n

theorem Site.Unsigned.refund {s : Site} (h : s.Unsigned) {n : Int} (hn : 0 ≤ n) :
    (s.withMeter (s.frame.meter.refund n)).Unsigned := h.withMeter (h.frame.meter.refund hn)

namespace Exec

variable {s t t' : Site} {parent : Frame} {f : Fault} {out : Outcome}

theorem settle_unsigned (ht : t.Unsigned) (h : t.settle f = .ok out t') :
    t'.world.storage.Unsigned ∧ out.Unsigned := by
  have settles := t.settle_cases f
  rw [h] at settles
  cases settles with
  | @reverted c p _ _ ended =>
    obtain ⟨f, g, storage, moved, hrollback, done, rfl, rfl⟩ := Site.revert_eq ended
    have hmeter : g.meter = f.meter.fail (c.kind.policy p) := Frame.meter_transition done
    rw [Frame.meter_transition moved] at hmeter
    refine ⟨ht.storage.rollback hrollback, ?_⟩
    show 0 ≤ g.meter.left
    rw [hmeter]
    exact (ht.frame.meter.fail _).1

theorem settle_polite {g : Fault} (ht : t.Unsigned) (hf : f ≠ .negativeBudget)
    (h : t.settle f = .error g t') : t'.world.storage.Unsigned ∧ g ≠ .negativeBudget := by
  have settles := t.settle_cases f
  rw [h] at settles
  cases settles with
  | dropped _ rolled => exact ⟨ht.storage.rollback rolled, hf⟩
  | misused => exact ⟨ht.storage, nofun⟩

/-- However the code of a callee has ended, nothing is negative back at its caller. -/
theorem close_polite (hs : s.Unsigned) (hparent : parent.Unsigned)
    {res : EStateM.Result Fault Site (Option Value)}
    (h : ContractVM.Polite (fun v => ∀ w, v = some w → w.unsigned = true) res) :
    ContractVM.Polite Outcome.Unsigned (close s parent res) := by
  unfold close
  cases res with
  | ok v t =>
    obtain ⟨ht, hv⟩ := h
    simp only
    cases ended : t.commitTo parent with
    | error m =>
      exact ⟨.leave hs.locals ht.storage hparent, nofun⟩
    | ok r =>
      obtain ⟨t', parent'⟩ := r
      have hleft : 0 ≤ t'.frame.meter.left := by
        rw [Site.meter_commitTo ended]
        exact ht.frame.meter.nonneg
      obtain ⟨d, storage, f, hcommit, -, rfl, rfl⟩ := Site.commitTo_eq ended
      exact ⟨.leave hs.locals (ht.storage.commit hcommit) (hparent.takeOver ht.frame _), hleft, hv⟩
  | error f t =>
    simp only
    cases hr : t.settle f with
    | ok out t' =>
      obtain ⟨hstorage, hout⟩ := settle_unsigned h.1 hr
      exact ⟨.leave hs.locals hstorage hparent, hout⟩
    | error g t' =>
      obtain ⟨hstorage, hg⟩ := settle_polite h.1 h.2 hr
      exact ⟨.leave hs.locals hstorage hparent, hg⟩

/-! ## Frames -/

variable {run : Runner} {env : Environment} {r : Request} {callee : Contract}

theorem constructAll_keeps (hrun : run.Polite) (henv : env.Unsigned)
    (hcallee : callee.unsigned = true) {inits : List (Owned ConstructorDef × Args)}
    (hinits : ∀ i ∈ inits, i.1.item.body ∈ callee.bodies ∧ i.2.Unsigned) :
    Keeps (constructAll run env callee inits) Whatever := by
  induction inits with
  | nil => exact .pure trivial
  | cons i rest ih =>
    obtain ⟨hbody, hargs⟩ := hinits i List.mem_cons_self
    have hsc : Scope.Unsigned ⟨env, callee, i.1.owner, .payable, i.2⟩ := ⟨henv, hcallee, hargs⟩
    exact (freshLocals_keeps (hrun _ _ hsc (hsc.body hbody))).bind fun _ _ =>
      ih fun j hj => hinits j (List.mem_cons_of_mem i hj)

theorem runEntry_keeps (hrun : run.Polite) (henv : env.Unsigned) (hcallee : callee.unsigned = true)
    {b : Bound} (hb : b.Unsigned callee) :
    Keeps (runEntry run env callee b) fun v => ∀ w, v = some w → w.unsigned = true := by
  cases b with
  | construct inits =>
    refine (spend_keeps (by decide)).bind fun _ _ => ?_
    exact (constructAll_keeps hrun henv hcallee hb).bind fun _ _ => .pure fun _ hw => nomatch hw
  | fallback fb =>
    have hsc : Scope.Unsigned ⟨env, callee, fb.owner,
      if fb.item.payable then .payable else .mutating, ∅⟩ := ⟨henv, hcallee, .empty⟩
    exact (freshLocals_keeps (hrun _ _ hsc (hsc.body hb))).bind fun _ _ =>
      .pure fun _ hw => nomatch hw
  | function fn args =>
    have hsc : Scope.Unsigned ⟨env, callee, fn.owner, fn.item.mutability, args⟩ :=
      ⟨henv, hcallee, hb.2⟩
    exact (freshLocals_keeps (hrun _ _ hsc (hsc.body hb.1))).bind fun _ _ =>
      lift_keeps fun v hv => FunctionDef.unsigned_result hv

/-- The first frame of a transaction asks for no negative budget, nor does any other. -/
theorem attempt_keeps (hrun : run.Polite) (henv : env.Unsigned) (r : Request) :
    Keeps (attempt run env r) fun v => ∀ w, v = some w → w.unsigned = true := by
  unfold attempt
  refine (move_keeps .binding).bind fun _ _ => ?_
  refine (lift_keeps (Q := fun c => c.unsigned = true) fun c hc =>
    henv.contracts _ _ (Registry.lookup_eq_ok.1 hc)).bind fun c hc => ?_
  refine (lift_keeps fun b hb => Contract.unsigned_bind hb).bind fun b hb => ?_
  refine (onlyIf_keeps _ (transfer_keeps _ _ _)).bind fun _ _ => ?_
  refine (onlyIf_keeps _ (holdLock_keeps _)).bind fun _ _ => ?_
  refine (move_keeps .executing).bind fun _ _ => ?_
  refine (runEntry_keeps hrun henv hc hb).bind fun v hv => ?_
  exact (move_keeps .committing).bind fun _ _ => .pure hv

theorem openFrame_keeps (hrun : run.Polite) (henv : env.Unsigned) (hgas : 0 ≤ r.gas)
    (hvalue : 0 ≤ r.value) : Keeps (openFrame run env r) Outcome.Unsigned := by
  intro s hs
  cases budget : GasMeter.ofBudget? r.gas with
  | none =>
    have hneg := ofBudget?_eq_none budget
    omega
  | some meter =>
    have solvent := (GasMeter.ofBudget?_eq_some budget).2
    obtain ⟨child, hchild⟩ : ∃ child, child = Frame.start s.world.opened (some s.frame)
      (r.context env.block) r.flags meter := ⟨_, rfl⟩
    have hsite : Site.Unsigned ⟨s.world.enter child, child, ∅⟩ := by
      rw [hchild]
      exact ⟨hs.storage.snapshot, .empty, ⟨⟨hvalue, henv.timestamp, henv.number⟩, solvent,
        fun _ he => nomatch he⟩⟩
    cases adopted : s.frame.adopt child with
    | ok parent =>
      rw [openFrame_adopted budget hchild adopted]
      exact close_polite hs (hs.frame.adopt adopted) (attempt_keeps hrun henv r _ hsite)
    | error m =>
      have hbusy : openFrame run env r s = .error (.misuse m) s := by
        unfold openFrame
        simp only [budget, ← hchild, adopted]
      rw [hbusy]
      exact ⟨hs, nofun⟩

/-! ## Calls -/

theorem forwarded_nonneg {left : Int} (hleft : 0 ≤ left) {requested : Option Int}
    (hrequested : ∀ n, requested = some n → 0 ≤ n) : 0 ≤ forwarded left requested := by
  have hcap : 0 ≤ left - left.tdiv 64 := by
    rw [Int.tdiv_eq_ediv_of_nonneg hleft]
    omega
  unfold forwarded
  simp only
  split
  · next n =>
    have hn := hrequested n rfl
    split
    · exact hn
    · exact hcap
  · exact hcap

section Scope

variable {sc : Scope} {spec : CallSpec}

theorem callContract_keeps (hrun : run.Polite) (hsc : sc.Unsigned) (callee : Contract)
    (target : Address) {amount : Int} (hamount : 0 ≤ amount) (args : Args) {requested : Option Int}
    (hrequested : ∀ n, requested = some n → 0 ≤ n) :
    Keeps (callContract run sc spec callee target amount args requested) Whatever := by
  unfold callContract
  refine .get fun s hs => .get fun _ _ => .ite (callFailed_keeps spec _ false) ?_
  have hforwarded := forwarded_nonneg hs.frame.meter.nonneg hrequested
  have hgas : 0 ≤ forwarded s.frame.meter.left requested + Fee.stipend amount :=
    Int.add_nonneg hforwarded (stipend_nonneg amount)
  have hvalue : 0 ≤ (request sc spec s.frame target args amount
      (forwarded s.frame.meter.left requested + Fee.stipend amount)).value := by
    unfold request
    simp only
    split
    · exact hs.frame.ctx.value
    · exact hamount
  refine (spend_keeps hforwarded).bind fun _ _ => ?_
  refine (openFrame_keeps hrun hsc.env hgas hvalue).bind fun out hout => ?_
  cases out with
  | committed v left =>
    refine (Keeps.modify fun _ hs => hs.refund hout.1).bind fun _ _ => ?_
    exact (setNamed_keeps spec.success rfl).bind fun _ _ => setResult_keeps _ hout.2
  | reverted c left =>
    exact (Keeps.modify fun _ hs => hs.refund hout).bind fun _ _ => callFailed_keeps spec c true

theorem call_keeps (hrun : run.Polite) (hsc : sc.Unsigned)
    (hvalue : spec.value.all Expr.unsigned = true) (hgas : spec.gas.all Expr.unsigned = true) :
    Keeps (call run sc spec) Whatever := by
  unfold call
  refine .get fun _ _ => (onlyIf_keeps _ (fail_keeps _)).bind fun _ _ => ?_
  refine (onlyIf_keeps _ (fail_keeps _)).bind fun _ _ => ?_
  refine (operand_keeps hsc spec.target).bind fun v _ => ?_
  refine (lift_keeps (Q := Whatever) fun _ _ => trivial).bind fun target _ => ?_
  refine (optionalUint_keeps hsc hvalue).bind fun given hgiven => ?_
  refine (onlyIf_keeps _ (ensureWritable_keeps _)).bind fun _ _ => ?_
  refine (arguments_keeps hsc spec.args).bind fun args _ => ?_
  refine (optionalUint_keeps hsc hgas).bind fun requested hrequested => ?_
  refine (spend_keeps (ofCall_nonneg (given.getD 0))).bind fun _ _ => .get fun _ _ => ?_
  have hamount : 0 ≤ given.getD 0 := by
    cases given with
    | none => exact Int.le_refl 0
    | some n => exact hgiven n rfl
  refine .ite (callFailed_keeps spec _ false) ?_
  cases sc.env.registry.find? target with
  | some callee => exact callContract_keeps hrun hsc callee target hamount args hrequested
  | none => exact .ite (sendValue_keeps spec target _) (callFailed_keeps spec _ false)

end Scope

end Exec

/-! ## Instructions -/

open Exec

variable {run : Runner} {sc : Scope}

theorem Contract.unsignedBody_cons {i : Instr} {rest : List Instr}
    (h : unsignedBody (i :: rest) = true) :
    (walkInstr i).all Instr.unsigned = true ∧ unsignedBody rest = true := by
  unfold unsignedBody walk at h
  rw [List.all_append] at h
  exact Bool.and_eq_true_iff.1 h

mutual
theorem Instr.exec_keeps (hrun : run.Polite) (hsc : sc.Unsigned) (i : Instr)
    (hi : (Contract.walkInstr i).all Instr.unsigned = true) :
    Keeps (i.exec run sc) Whatever := by
  have hself : i.unsigned = true := by
    refine List.all_eq_true.1 hi i ?_
    cases i <;> exact List.mem_cons_self
  cases i with
  | bind name e =>
    unfold Instr.exec
    exact (value_keeps hsc hself).bind fun v hv => (setLocal_keeps name hv).bind fun _ _ => .pure trivial
  | sstore key e =>
    unfold Instr.exec
    refine (ensureWritable_keeps "sstore").bind fun _ _ => ?_
    refine (operand_keeps hsc key).bind fun k _ => ?_
    refine (value_keeps hsc hself).bind fun v hv => ?_
    exact (write_keeps _ hv).bind fun _ _ => .pure trivial
  | require cond reason | assert cond =>
    unfold Instr.exec
    refine (condition_keeps hsc cond).bind fun b _ => ?_
    cases b with
    | true => exact .pure trivial
    | false => exact fail_keeps _
  | revert reason =>
    unfold Instr.exec
    exact fail_keeps _
  | emit event args =>
    unfold Instr.exec
    exact (emit_keeps hsc event args).bind fun _ _ => .pure trivial
  | call spec =>
    obtain ⟨hvalue, hgas⟩ := Bool.and_eq_true_iff.1 hself
    unfold Instr.exec
    exact (call_keeps hrun hsc hvalue hgas).bind fun _ _ => .pure trivial
  | invoke fn args result =>
    unfold Instr.exec
    exact (invoke_keeps hsc hrun fn args result).bind fun _ _ => .pure trivial
  | branch cond yes no =>
    have hnested : Contract.unsignedBody yes = true ∧
        (Contract.walkElse no).all Instr.unsigned = true := by
      unfold Contract.walkInstr at hi
      rw [List.all_cons, List.all_append] at hi
      exact Bool.and_eq_true_iff.1 (Bool.and_eq_true_iff.1 hi).2
    unfold Instr.exec
    refine (condition_keeps hsc cond).bind fun b _ => ?_
    cases b with
    | true => exact Instr.execAll_keeps hrun hsc yes hnested.1
    | false => exact Instr.execElse_keeps hrun hsc no hnested.2
  | ret e =>
    unfold Instr.exec
    exact (operand_keeps hsc e).bind fun _ _ => .pure trivial
  | selfDestruct beneficiary =>
    unfold Instr.exec
    exact (selfDestruct_keeps hsc beneficiary).bind fun _ _ => .pure trivial

theorem Instr.execAll_keeps (hrun : run.Polite) (hsc : sc.Unsigned) (body : List Instr)
    (hbody : Contract.unsignedBody body = true) : Keeps (Instr.execAll run sc body) Whatever := by
  cases body with
  | nil => exact .pure trivial
  | cons i rest =>
    obtain ⟨hi, hrest⟩ := Contract.unsignedBody_cons hbody
    unfold Instr.execAll
    refine boundary_keeps.bind fun _ _ => ?_
    refine (Instr.exec_keeps hrun hsc i hi).bind fun flow _ => ?_
    cases flow with
    | next => exact Instr.execAll_keeps hrun hsc rest hrest
    | done v => exact .pure trivial

theorem Instr.execElse_keeps (hrun : run.Polite) (hsc : sc.Unsigned) (body : Option (List Instr))
    (hbody : (Contract.walkElse body).all Instr.unsigned = true) :
    Keeps (Instr.execElse run sc body) Whatever := by
  cases body with
  | none => exact .pure trivial
  | some body =>
    unfold Instr.execElse
    exact Instr.execAll_keeps hrun hsc body hbody
end

/-- Bodies without negative constants ask for no negative budget, however deep they nest. -/
theorem runBody_polite (depth : Nat) : (runBody depth).Polite := by
  induction depth with
  | zero => exact fun _ _ _ _ _ hs => ⟨hs, nofun⟩
  | succ depth ih => exact fun _ body hsc hbody => Instr.execAll_keeps ih hsc body hbody

end ContractVM
