/-
What a call can come to.

`Called sc spec s r` lists the results of the instruction `spec` at the site `s`.
A call charges its caller for the operands first, so each constructor speaks of a
later site `u` that differs from `s` in its gas only.  `call_called` says that
the list is complete; that a call follows the relation is then one case for each
constructor, and so is everything one wants to know about a call that failed.
-/
import ContractVM.Proofs.Exec.Life

namespace ContractVM

theorem Value.isValid_of_asAddress {v : Value} {a : Address} (h : v.asAddress = .ok a) :
    Address.isValid a = true := by
  unfold Value.asAddress at h
  split at h
  · split at h
    · next ha =>
      cases h
      exact ha
    · cases h
  · cases h

namespace Exec

variable {run : Runner} {sc : Scope} {s : Site} {spec : CallSpec}

inductive Called (sc : Scope) (spec : CallSpec) (s : Site) : EStateM.Result Fault Site Unit → Prop
  | thrown {f u} (h : Run (.body sc) s (some f) u) : Called sc spec s (.error f u)
  /-- There was nothing to call, or it may not be called now. -/
  | failed {u c} (paid : s.Paid u) (h : Run (.body sc) u (some (.raised c false)) u) :
    Called sc spec s (callFailed spec c false u)
  /-- Value went to an account without code. -/
  | sent {u target amount storage} (paid : s.Paid u) (valid : Address.isValid target = true)
    (may : 0 < amount → sc.MayWrite u.frame.flags)
    (codeless : sc.env.registry.find? target = none)
    (h : u.world.storage.transfer u.frame.ctx.self target amount = .ok storage) :
    Called sc spec s (setNamed spec.success (.bool true) (u.withStorage storage))
  | committed {u t t' parent v} (paid : s.Paid u) (o : Opening sc u)
    (h : Run (.frame sc.env o.request) o.site none t)
    (ended : t.commitTo o.parent = .ok (t', parent)) :
    Called sc spec s ((setNamed spec.success (.bool true) >>= fun _ => setResult
      (spec.result.filter (· ≠ "")) v) ((o.caller.leave t' parent).refund t'.frame.meter.left))
  | reverted {u t t' c p left} (paid : s.Paid u) (o : Opening sc u)
    (h : Run (.frame sc.env o.request) o.site (some (.raised c p)) t)
    (ended : t.revert c p = .ok (.reverted c left, t')) :
    Called sc spec s (callFailed spec c true ((o.caller.leave t' o.parent).refund left))

/-! ## Handling a failed call -/

def flagged (name : Option String) (v : Value) (locals : Table Value) : Table Value :=
  match name with
  | some name => if name = "" then locals else locals.set name v
  | none => locals

theorem setNamed_eq (name : Option String) (v : Value) :
    setNamed name v s = .ok () { s with locals := flagged name v s.locals } := by
  cases name with
  | none => rfl
  | some name =>
    unfold setNamed flagged
    by_cases h : name = ""
    · simp only [h, if_true]
      rfl
    · simp only [h, if_false]
      rfl

theorem callFailed_eq_ok (caught : spec.caught.getD false = true) (c : Cause) (propagated : Bool) :
    callFailed spec c propagated s =
      .ok () (Site.note { s with locals := flagged spec.success (.bool false) s.locals }
        (.callFailed s.frame.id spec.fn c)) := by
  unfold callFailed
  rw [if_pos caught]
  show ((setNamed spec.success (.bool false) >>= _ : ExecM Unit) s) = _
  rw [bind_ok (setNamed_eq _ _)]
  rfl

theorem callFailed_eq_error (uncaught : spec.caught.getD false = false) (c : Cause)
    (propagated : Bool) : callFailed spec c propagated s = .error (.raised c propagated) s := by
  unfold callFailed
  rw [if_neg (by rw [uncaught]; exact Bool.false_ne_true)]
  rfl

theorem setResult_eq (name : Option String) (v : Option Value) :
    ∃ locals, setResult name v s = .ok () { s with locals := locals } := by
  cases name with
  | none => exact ⟨s.locals, rfl⟩
  | some name =>
    cases v with
    | none => exact ⟨s.locals, rfl⟩
    | some v => exact ⟨s.locals.set name v, rfl⟩

/-! ## A call that opens a frame -/

/-- What a call does with the outcome of its callee. -/
def resume (spec : CallSpec) : Outcome → ExecM Unit
  | .committed v left => do
    modify fun s => s.refund left
    setNamed spec.success (.bool true)
    setResult (spec.result.filter (· ≠ "")) v
  | .reverted cause left => do
    modify fun s => s.refund left
    callFailed spec cause true

/-- The rest of a call whose fee is paid. -/
def instruct (run : Runner) (o : Opening sc s) : EStateM.Result Fault Site Unit :=
  callContract run sc o.spec o.callee o.target o.amount o.args o.requested (s.withMeter o.charged)

theorem instruct_eq (run : Runner) (o : Opening sc s) :
    instruct run o = (openFrame run sc.env o.request >>= resume o.spec) o.caller := by
  unfold instruct callContract
  show (if (o.callee.isGuarded o.spec.fn && s.world.locks.isLocked
    (if o.spec.kind = .delegate then s.frame.ctx.self else o.target)) = true then _ else _ :
      ExecM Unit) (s.withMeter o.charged) = _
  have free : (o.callee.isGuarded o.spec.fn && s.world.locks.isLocked
      (if o.spec.kind = .delegate then s.frame.ctx.self else o.target)) = false := by
    cases hg : o.callee.isGuarded o.spec.fn with
    | false => rfl
    | true => exact o.unlocked hg
  rw [free, if_neg Bool.false_ne_true]
  show (spend (forwarded o.charged.left o.requested) >>= _) (s.withMeter o.charged) = _
  rw [bind_ok (spend_eq_ok (s := s.withMeter o.charged) o.forward)]
  rfl

/-! ## The results of a call -/

theorem stipend_nonneg (amount : Int) : 0 ≤ Fee.stipend amount := by
  unfold Fee.stipend
  split <;> decide

theorem ofCall_nonneg (amount : Int) : 0 ≤ Fee.ofCall amount := by
  unfold Fee.ofCall
  split <;> decide

theorem Called.bind {α : Type} {u : Site} {act : ExecM α} {k : α → ExecM Unit}
    {Q : α → Site → Prop} (paid : s.Paid u) (h : Follows (.body sc) u act Q)
    (hk : ∀ a v, Q a v → Called sc spec s (k a v)) : Called sc spec s ((act >>= k) u) := by
  unfold Follows at h
  cases hr : act u with
  | ok a v =>
    rw [hr] at h
    rw [bind_ok hr]
    exact hk a v h.2
  | error e v =>
    rw [hr] at h
    rw [bind_error hr]
    exact .thrown (paid.run.trans h)

theorem sendValue_called {u : Site} {target : Address} {amount : Int} (paid : s.Paid u)
    (valid : Address.isValid target = true) (may : 0 < amount → sc.MayWrite u.frame.flags)
    (codeless : sc.env.registry.find? target = none) :
    Called sc spec s (sendValue spec target amount u) := by
  unfold sendValue
  cases hs : u.world.storage.transfer u.frame.ctx.self target amount with
  | ok storage =>
    rw [transfer_eq_ok hs]
    exact .sent paid valid may codeless hs
  | error f =>
    rw [transfer_eq_error hs]
    rcases Storage.transfer_eq_error hs with ⟨e, rfl, hl⟩ | ⟨c, rfl, hc⟩
    · exact .thrown (paid.run.trans (transfer_error_run hs))
    · exact .failed paid (.raise c hc)

theorem instruct_called (hrun : run.Sound) {u : Site} (paid : s.Paid u) (o : Opening sc u) :
    Called sc o.spec s (instruct run o) := by
  have hends := openFrame_ends hrun o
  rw [instruct_eq]
  cases hr : openFrame run sc.env o.request o.caller with
  | ok out t =>
    rw [hr] at hends
    rw [bind_ok hr]
    cases hends with
    | committed h ended => exact .committed paid o h ended
    | reverted h ended => exact .reverted paid o h ended
  | error f t =>
    rw [hr] at hends
    rw [bind_error hr]
    cases hends with
    | aborted h foreign ended => exact .thrown (paid.run.trans (.aborted o h foreign ended))

/-- A call on code, from the site `u` at which its fee is not yet paid. -/
theorem callContract_called (hrun : run.Sound) {u : Site} {target : Address} {callee : Contract}
    {args : Args} {amount : Int} {requested : Option Int} {charged : GasMeter} (paid : s.Paid u)
    (target_valid : Address.isValid target = true)
    (found : sc.env.registry.find? target = some callee)
    (shallow : sc.env.maxCallDepth.lt (.ofNat (u.frame.depth + 1)) = false)
    (writable : 0 < amount → sc.MayWrite u.frame.flags)
    (delegated : spec.kind = .delegate → amount = 0)
    (constructing : u.frame.flags.constructing = false)
    (fee : u.frame.meter.charge (Fee.ofCall amount) = .ok charged) :
    Called sc spec s
      (callContract run sc spec callee target amount args requested (u.withMeter charged)) := by
  have paid' : s.Paid (u.withMeter charged) :=
    paid.trans ⟨charged, .of_charge (ofCall_nonneg amount) fee, rfl⟩
  unfold callContract
  show Called _ _ _ ((if (callee.isGuarded spec.fn && u.world.locks.isLocked
    (if spec.kind = .delegate then u.frame.ctx.self else target)) = true then _ else _ :
      ExecM Unit) (u.withMeter charged))
  by_cases hlock : (callee.isGuarded spec.fn && u.world.locks.isLocked
      (if spec.kind = .delegate then u.frame.ctx.self else target)) = true
  · rw [if_pos hlock]
    rw [Bool.and_eq_true] at hlock
    exact .failed paid' (.blocked (.call spec found hlock.1 rfl (of_decide_eq_true hlock.2)))
  · rw [if_neg hlock]
    show Called _ _ _ ((spend (forwarded charged.left requested) >>= _) (u.withMeter charged))
    cases forward : charged.charge (forwarded charged.left requested) with
    | error c =>
      rw [bind_error (spend_eq_error (s := u.withMeter charged) forward)]
      exact .thrown (paid'.run.trans (.raise c (Unlocked.charge _ _ c forward)))
    | ok m =>
      rw [bind_ok (spend_eq_ok (s := u.withMeter charged) forward)]
      show Called _ _ _ ((openFrame run sc.env (request sc spec u.frame target args amount
        (forwarded charged.left requested + Fee.stipend amount)) >>= _) (u.withMeter m))
      cases budget : GasMeter.ofBudget?
          (forwarded charged.left requested + Fee.stipend amount) with
      | none =>
        have negative : forwarded charged.left requested < 0 := by
          have hsum := ofBudget?_eq_none budget
          have hstipend := stipend_nonneg amount
          omega
        rw [bind_error (openFrame_overdrawn (s := u.withMeter m) budget)]
        exact .thrown (paid'.run.trans (.overdraw (s := u.withMeter charged) negative forward))
      | some meter =>
        by_cases idle : u.frame.active = none
        · let o : Opening sc u := {
            spec, target, callee, args, amount, requested, charged, paid := m, meter
            target_valid, found, shallow, writable, delegated, idle, constructing, fee
            forward, budget
            unlocked := fun hg => by
              rw [hg, Bool.true_and] at hlock
              exact Bool.eq_false_iff.2 hlock }
          have called := instruct_called hrun paid o
          rw [instruct_eq] at called
          exact called
        · rw [bind_error (openFrame_busy (s := u.withMeter m) budget idle)]
          exact .thrown (paid.run.trans (.stuck .childActive m (.inr idle)))

theorem amount_eq_zero {spec : CallSpec} {amount : Option Int}
    (novalue : (decide (spec.kind = .delegate) && spec.value.isSome) = false)
    (hamount : spec.value = none → amount = none) (h : spec.kind = .delegate) :
    amount.getD 0 = 0 := by
  rw [decide_eq_true h, Bool.true_and, Option.isSome_eq_false_iff, Option.isNone_iff_eq_none]
    at novalue
  rw [hamount novalue]
  rfl

theorem call_called (hrun : run.Sound) : Called sc spec s (call run sc spec s) := by
  unfold call
  show Called _ _ _ ((onlyIf s.frame.flags.constructing (fail .callWhileConstructing) >>= _) s)
  refine .bind ⟨_, .refl _, rfl⟩ (onlyIf_fail_follows _ nofun) fun _ u hu => ?_
  obtain ⟨rfl, constructing⟩ := hu
  have paid : u.Paid u := ⟨_, .refl _, rfl⟩
  refine .bind paid (onlyIf_fail_follows _ nofun) fun _ v hv => ?_
  obtain ⟨rfl, novalue⟩ := hv
  refine .bind paid (value_follows spec.target) fun w a ha => ?_
  refine .bind ha (lift_follows (.asAddress w)) fun target b hb => ?_
  obtain ⟨rfl, htarget⟩ := hb
  refine .bind ha (optionalUint_follows spec.value) fun given b hb => ?_
  obtain ⟨hb, hgiven⟩ := hb
  refine .bind (ha.trans hb) (Q := fun _ t => t = b ∧ (0 < given.getD 0 → sc.MayWrite b.frame.flags))
    ?_ fun _ c hc => ?_
  · unfold onlyIf
    split
    · exact (ensureWritable_follows _).mono fun _ _ h => ⟨h.1, fun _ => h.2⟩
    · next hn => exact .pure ⟨rfl, fun h => absurd (decide_eq_true h) hn⟩
  obtain ⟨rfl, may⟩ := hc
  refine .bind (ha.trans hb) (arguments_follows spec.args) fun args d hd => ?_
  refine .bind ((ha.trans hb).trans hd) (optionalUint_follows spec.gas) fun requested e he => ?_
  have hpaid : v.Paid e := ((ha.trans hb).trans hd).trans he.1
  have hmay : 0 < given.getD 0 → sc.MayWrite e.frame.flags := by
    obtain ⟨m, -, rfl⟩ := hd.trans he.1
    exact may
  have hconstructing : e.frame.flags.constructing = false := by
    obtain ⟨m, -, rfl⟩ := hpaid
    exact constructing
  show Called _ _ _ ((spend (Fee.ofCall (given.getD 0)) >>= _) e)
  cases fee : e.frame.meter.charge (Fee.ofCall (given.getD 0)) with
  | error c =>
    rw [bind_error (spend_eq_error fee)]
    exact .thrown (hpaid.run.trans (.raise c (Unlocked.charge _ _ c fee)))
  | ok charged =>
    rw [bind_ok (spend_eq_ok fee)]
    have hcharged : v.Paid (e.withMeter charged) :=
      hpaid.trans ⟨charged, .of_charge (ofCall_nonneg _) fee, rfl⟩
    show Called _ _ _ ((if sc.env.maxCallDepth.lt (.ofNat (e.frame.depth + 1)) = true then _
      else _ : ExecM Unit) (e.withMeter charged))
    by_cases deep : sc.env.maxCallDepth.lt (.ofNat (e.frame.depth + 1)) = true
    · rw [if_pos deep]
      exact .failed hcharged (.raise _ nofun)
    · rw [if_neg deep]
      cases found : sc.env.registry.find? target with
      | some callee =>
        exact callContract_called hrun hpaid (Value.isValid_of_asAddress htarget) found
          (Bool.eq_false_iff.2 deep) hmay (amount_eq_zero novalue hgiven) hconstructing fee
      | none =>
        simp only
        split
        · exact sendValue_called hcharged (Value.isValid_of_asAddress htarget) hmay found
        · exact .failed hcharged (.raise _ nofun)

end Exec

end ContractVM
