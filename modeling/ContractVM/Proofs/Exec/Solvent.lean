/-
Gas is never made.

A meter is solvent if what is left on it is neither negative nor more than its
budget.  A call hands gas to its callee and gets back what that has left, stipend
included, and none of this exceeds the fee that the call has paid
(`Opening.returns`), so a meter that starts out solvent only ever goes down
(`Run.spends`).  The one site of which this is not true is that of a call with a
negative gas limit so low that no stipend makes up for it: it adds gas to the caller
and gives up the transaction at once, before anything else runs.
-/
import ContractVM.Proofs.Exec.Called
import ContractVM.Proofs.Exec.Moment

namespace ContractVM

namespace GasMeter

structure Solvent (m : GasMeter) : Prop where
  nonneg : 0 ≤ m.left
  le : m.left ≤ m.budget

theorem Solvent.of_spends {m m' : GasMeter} (h : m.Solvent) (spends : m.Spends m') : m'.Solvent where
  nonneg := spends.2.2 h.nonneg
  le := by
    have hle := h.le
    have hless := spends.2.1
    rw [spends.1]
    omega

theorem ofBudget?_eq_some {n : Int} {m : GasMeter} (h : ofBudget? n = some m) :
    m = ⟨n, n⟩ ∧ m.Solvent := by
  unfold ofBudget? at h
  split at h
  · cases h
  · next hn =>
    cases h
    exact ⟨rfl, Int.not_lt.1 hn, Int.le_refl _⟩

/-- A refund that stays below the budget is given in full. -/
theorem left_refund {m : GasMeter} {n : Int} (h : m.left + n ≤ m.budget) :
    (m.refund n).left = m.left + n := by
  unfold refund
  rw [if_neg (by omega)]

/-- A meter that fails keeps what it has or loses it all. -/
theorem Solvent.fail {m : GasMeter} (h : m.Solvent) (p : FailurePolicy) :
    0 ≤ (m.fail p).left ∧ (m.fail p).left ≤ m.left := by
  have hnonneg := h.nonneg
  cases p with
  | assertFail => exact ⟨Int.le_refl _, hnonneg⟩
  | requireFail | revertFail => exact ⟨hnonneg, Int.le_refl _⟩

end GasMeter

/-! ## Calls -/

theorem Exec.forwarded_le (left : Int) (requested : Option Int) :
    forwarded left requested ≤ left - left.tdiv 64 := by
  unfold forwarded
  simp only
  split
  · split <;> omega
  · exact Int.le_refl _

namespace Opening

variable {sc : Scope} {s : Site}

/-- The gas left to the caller after the fee of the call. -/
def rem (o : Opening sc s) : Int := o.charged.left

theorem stipend_covered (o : Opening sc s) :
    o.rem + Fee.stipend o.amount ≤ s.frame.meter.left - Fee.call := by
  have hfee : o.rem = s.frame.meter.left - Fee.ofCall o.amount := GasMeter.left_charge o.fee
  have hcover := Fee.callStipend_le_callValue
  rw [hfee, Fee.ofCall, Fee.stipend]
  split <;> omega

theorem rem_nonneg (o : Opening sc s) : 0 ≤ o.rem := by
  have hfee := (GasMeter.charge_eq_ok_iff.1 o.fee).1
  have hleft : o.rem = s.frame.meter.left - Fee.ofCall o.amount := GasMeter.left_charge o.fee
  omega

/-- The meter of a callee is full, and the caller has kept a sixty-fourth of its gas. -/
theorem meter_eq (o : Opening sc s) : ∃ n, o.meter = ⟨n, n⟩ ∧ 0 ≤ n ∧
    n ≤ o.rem - o.rem / 64 + Fee.stipend o.amount ∧
    o.paid.left = o.rem + Fee.stipend o.amount - n := by
  obtain ⟨hmeter, hsolvent⟩ := GasMeter.ofBudget?_eq_some o.budget
  have hforwarded := Exec.forwarded_le o.rem o.requested
  have hpaid : o.paid.left = o.rem - Exec.forwarded o.rem o.requested :=
    GasMeter.left_charge o.forward
  have hnonneg := hsolvent.nonneg
  rw [Int.tdiv_eq_ediv_of_nonneg o.rem_nonneg] at hforwarded
  rw [hmeter] at hnonneg
  refine ⟨_, hmeter, hnonneg, ?_, ?_⟩
  · show Exec.forwarded o.rem o.requested + _ ≤ _
    omega
  · rw [hpaid]
    show _ = o.rem + _ - (Exec.forwarded o.rem o.requested + _)
    omega

/-- What a caller has once its callee returned `n`. -/
theorem returns (o : Opening sc s) (solvent : s.frame.meter.Solvent) {n : Int} (hn : 0 ≤ n)
    (hle : n ≤ o.meter.budget) :
    (o.paid.refund n).left = o.paid.left + n ∧ o.rem / 64 ≤ o.paid.left + n ∧
      o.paid.left + n ≤ o.rem + Fee.stipend o.amount := by
  obtain ⟨b, hmeter, hb, hbudget, hpaid⟩ := o.meter_eq
  have hcovered := o.stipend_covered
  have hfee : 0 ≤ Fee.call := by decide
  have hbound := solvent.le
  rw [hmeter] at hle
  simp only at hle
  refine ⟨GasMeter.left_refund ?_, ?_, ?_⟩
  · rw [o.budget_paid]
    omega
  · omega
  · omega

theorem spends_returns (o : Opening sc s) (solvent : s.frame.meter.Solvent) {n : Int} (hn : 0 ≤ n)
    (hle : n ≤ o.meter.budget) : s.frame.meter.Spends (o.paid.refund n) := by
  obtain ⟨hrefund, hlow, hhigh⟩ := o.returns solvent hn hle
  have hcovered := o.stipend_covered
  have hfee : 0 ≤ Fee.call := by decide
  have hrem := o.rem_nonneg
  have hdiv := Int.ediv_nonneg hrem (by decide : (0 : Int) ≤ 64)
  refine ⟨(GasMeter.budget_refund _ _).trans o.budget_paid, ?_, fun _ => ?_⟩
  · rw [hrefund]
    omega
  · rw [hrefund]
    omega

end Opening

/-! ## Runs -/

/-- Code goes on, or its frame fails; no fault goes to the host. -/
def Contained (e : Option Fault) : Prop := ∀ f, e = some f → ∃ c p, f = .raised c p

theorem Contained.none : Contained none := fun _ h => nomatch h

theorem Contained.raised (c : Cause) (p : Bool) : Contained (some (.raised c p)) :=
  fun _ h => ⟨c, p, (Option.some.inj h).symm⟩

theorem Site.meter_commitTo {t t' : Site} {parent parent' : Frame}
    (h : t.commitTo parent = .ok (t', parent')) : t'.frame.meter = t.frame.meter := by
  obtain ⟨d, storage, f, -, done, rfl, -⟩ := Site.commitTo_eq h
  have hmeter := Frame.meter_transition done
  exact hmeter

theorem Site.left_revert {t t' : Site} {c : Cause} {p : Bool} {left : Int}
    (h : t.revert c p = .ok (.reverted c left, t')) :
    left = (t.frame.meter.fail (c.kind.policy p)).left := by
  obtain ⟨f, g, storage, moved, -, done, hout, -⟩ := Site.revert_eq h
  have hmeter : g.meter = f.meter.fail (c.kind.policy p) := Frame.meter_transition done
  rw [Frame.meter_transition moved] at hmeter
  rw [← hmeter]
  exact (Outcome.reverted.inj hout).2

theorem Opening.solvent {sc : Scope} {s : Site} (o : Opening sc s) : o.site.frame.meter.Solvent :=
  (GasMeter.ofBudget?_eq_some o.budget).2

/-- What a callee has left that was given a full meter. -/
theorem Opening.left_of_spends {sc : Scope} {s t : Site} (o : Opening sc s)
    (spends : o.site.frame.meter.Spends t.frame.meter) :
    0 ≤ t.frame.meter.left ∧ t.frame.meter.left ≤ o.meter.budget := by
  have hsolvent := o.solvent.of_spends spends
  exact ⟨hsolvent.nonneg, spends.1 ▸ hsolvent.le⟩

theorem Opening.left_of_revert {sc : Scope} {s t t' : Site} (o : Opening sc s)
    (spends : o.site.frame.meter.Spends t.frame.meter) {c : Cause} {p : Bool} {left : Int}
    (ended : t.revert c p = .ok (.reverted c left, t')) : 0 ≤ left ∧ left ≤ o.meter.budget := by
  obtain ⟨-, hle⟩ := o.left_of_spends spends
  obtain ⟨hnonneg, hless⟩ := (o.solvent.of_spends spends).fail (c.kind.policy p)
  rw [Site.left_revert ended]
  exact ⟨hnonneg, Int.le_trans hless hle⟩

theorem Run.spends {p : Place} {s t : Site} {e : Option Fault} (h : Run p s e t) (contained : Contained e)
    (solvent : s.frame.meter.Solvent) : s.frame.meter.Spends t.frame.meter := by
  induction h with
  | trans _ _ ih ih' =>
    have hfirst := ih .none solvent
    exact hfirst.trans (ih' contained (solvent.of_spends hfirst))
  | stuck => obtain ⟨c, p, h⟩ := contained _ rfl; cases h
  | spend h => exact h
  | exhaust => obtain ⟨c, p, h⟩ := contained _ rfl; cases h
  | @write _ _ _ _ cls _ _ _ h =>
    refine .of_charge ?_ (Storage.write_eq_ok h).2.2
    cases cls <;> decide
  | jump _ h => exact .of_charge (by decide) h
  | invoke _ _ _ _ ih => exact ih contained solvent
  | guarded _ _ _ _ _ ih => exact ih contained solvent
  | overdraw => obtain ⟨c, p, h⟩ := contained _ rfl; cases h
  | @committed _ s t t' parent o inner ended ih =>
    obtain ⟨hnonneg, hle⟩ := o.left_of_spends (ih .none o.solvent)
    rw [← Site.meter_commitTo ended] at hnonneg hle
    have hmeter := congrArg Frame.meter (o.frame_committed inner.same.id ended)
    show s.frame.meter.Spends (GasMeter.refund (o.caller.leave t' parent).frame.meter _)
    rw [hmeter]
    exact o.spends_returns solvent hnonneg hle
  | @passed _ s t t' c p _ o inner ended ih | @caught _ s t t' c p _ _ _ o inner ended ih =>
    obtain ⟨hnonneg, hle⟩ := o.left_of_revert (ih (.raised c p) o.solvent) ended
    have hmeter := congrArg Frame.meter
      (o.frame_undone ((Site.id_revert ended).trans inner.same.id))
    show s.frame.meter.Spends (GasMeter.refund (o.caller.leave t' o.parent).frame.meter _)
    rw [hmeter]
    exact o.spends_returns solvent hnonneg hle
  | aborted _ _ foreign =>
    obtain ⟨c, p, h⟩ := contained _ rfl
    exact absurd h (foreign c p)
  | start _ _ _ _ ih => exact ih contained solvent
  | refused moved _ ih =>
    rw [← Frame.meter_transition moved] at solvent ⊢
    exact ih contained solvent
  | failed moved _ admits moved' _ ih ih' =>
    rw [← Frame.meter_transition moved] at solvent ⊢
    have hbound := ih .none solvent
    rw [← admits.meter, ← Frame.meter_transition moved'] at hbound
    exact hbound.trans (ih' contained (solvent.of_spends hbound))
  | finished moved _ admits moved' _ moved'' ih ih' =>
    rw [← Frame.meter_transition moved] at solvent ⊢
    have hbound := ih .none solvent
    rw [← admits.meter, ← Frame.meter_transition moved'] at hbound
    have hexec := hbound.trans (ih' contained (solvent.of_spends hbound))
    rw [← Frame.meter_transition moved''] at hexec
    exact hexec
  | _ => exact .refl _

theorem Site.Enters.spends {env : Environment} {r : Request} {s t : Site} {b : Bool}
    (h : s.Enters env r b t) (solvent : s.frame.meter.Solvent) :
    s.frame.meter.Spends t.frame.meter := by
  obtain @⟨f, g, v, w, _, moved, bind, admits, moved'⟩ := h
  rw [← Frame.meter_transition moved] at solvent ⊢
  have hbound := bind.spends .none solvent
  rw [← admits.meter, ← Frame.meter_transition moved'] at hbound
  exact hbound

/-- At every moment of its life a frame has a solvent meter. -/
theorem Moment.solvent {p q : Place} {s u : Site} {K : List Activation} {e : Option Fault}
    (h : Moment p s K q e u) (hq : ∀ env r, q ≠ .frame env r) (contained : Contained e)
    (solvent : s.frame.meter.Solvent) : u.frame.meter.Solvent := by
  induction h with
  | now h => exact solvent.of_spends (h.spends contained solvent)
  | later h _ ih => exact ih hq contained (solvent.of_spends (h.spends .none solvent))
  | invoke _ _ _ _ ih => exact ih hq contained solvent
  | guarded _ _ _ _ _ ih => exact ih hq contained solvent
  | call o _ ih => exact ih hq contained o.solvent
  | start _ _ _ _ ih => exact ih hq contained solvent
  | bind moved _ ih =>
    rw [← Frame.meter_transition moved] at solvent
    exact ih hq contained solvent
  | execute entered _ ih => exact ih hq contained (solvent.of_spends (entered.spends solvent))
  | opened | refused | ended => exact absurd rfl (hq _ _)

/-! ## What comes back from a callee -/

def Outcome.left : Outcome → Int
  | .committed _ left => left
  | .reverted _ left => left

theorem Exec.meter_resume (spec : CallSpec) (out : Outcome) (s : Site) :
    (endSite (resume spec out s)).frame.meter = s.frame.meter.refund out.left := by
  cases out with
  | committed v left =>
    show (endSite ((setNamed spec.success (.bool true) >>= _ : ExecM Unit) (s.refund left))).frame.meter
      = _
    rw [bind_ok (setNamed_eq _ _)]
    obtain ⟨locals, hlocals⟩ := setResult_eq
      (s := { s.refund left with locals := flagged spec.success (.bool true) (s.refund left).locals })
      (spec.result.filter (· ≠ "")) v
    rw [hlocals]
    rfl
  | reverted c left =>
    show (endSite (callFailed spec c true (s.refund left))).frame.meter = _
    cases caught : spec.caught.getD false with
    | true =>
      rw [callFailed_eq_ok caught]
      rfl
    | false =>
      rw [callFailed_eq_error caught]
      rfl

/-- A call never hands on more than it may, and however its callee ends, it gives back all
that this has left, which is never more than the fee has paid for. -/
structure Opening.Fair {sc : Scope} {s : Site} (o : Opening sc s) (run : Runner) : Prop where
  budget : o.meter.budget ≤ o.rem - o.rem / 64 + Fee.stipend o.amount
  uncut : ∀ out t, Exec.openFrame run sc.env o.request o.caller = .ok out t →
    (t.frame.meter.refund out.left).left = t.frame.meter.left + out.left
  resumed : ∀ out t, Exec.openFrame run sc.env o.request o.caller = .ok out t →
    o.rem / 64 ≤ (Exec.endSite (Exec.instruct run o)).frame.meter.left ∧
      (Exec.endSite (Exec.instruct run o)).frame.meter.left ≤ o.rem + Fee.stipend o.amount

theorem Opening.left_outcome {run : Runner} (hrun : run.Sound) {sc : Scope} {s t : Site}
    (o : Opening sc s) {out : Outcome}
    (h : Exec.openFrame run sc.env o.request o.caller = .ok out t) :
    t.frame.meter = o.paid ∧ 0 ≤ out.left ∧ out.left ≤ o.meter.budget := by
  have ends := Exec.openFrame_ends hrun o
  rw [h] at ends
  cases ends with
  | committed ran ended =>
    have hleft := o.left_of_spends (ran.spends .none o.solvent)
    rw [← Site.meter_commitTo ended] at hleft
    exact ⟨congrArg Frame.meter (o.frame_committed ran.same.id ended), hleft⟩
  | reverted ran ended =>
    exact ⟨congrArg Frame.meter (o.frame_undone ((Site.id_revert ended).trans ran.same.id)),
      o.left_of_revert (ran.spends (.raised _ _) o.solvent) ended⟩

theorem Opening.fair {run : Runner} (hrun : run.Sound) {sc : Scope} {s : Site} (o : Opening sc s)
    (solvent : s.frame.meter.Solvent) : o.Fair run := by
  obtain ⟨b, hmeter, -, hbudget, -⟩ := o.meter_eq
  refine ⟨by rw [hmeter]; exact hbudget, fun out t h => ?_, fun out t h => ?_⟩
  · obtain ⟨hpaid, hnonneg, hle⟩ := o.left_outcome hrun h
    rw [hpaid]
    exact (o.returns solvent hnonneg hle).1
  · obtain ⟨hpaid, hnonneg, hle⟩ := o.left_outcome hrun h
    obtain ⟨huncut, hkept, hcovered⟩ := o.returns solvent hnonneg hle
    rw [Exec.instruct_eq, Exec.bind_ok h, Exec.meter_resume, hpaid, huncut]
    exact ⟨hkept, hcovered⟩

end ContractVM
