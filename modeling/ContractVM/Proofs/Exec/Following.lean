/-
Actions that move sites only along `Run`.

`Follows p s act Q` says of an action that starts at the site `s`: whatever it
ends with, the place `p` allows a run to the site it ends at, and if it gives a
value then the value and that site have `Q`.  There is one lemma for every
elementary action and one for sequencing.  The condition `Q` is needed only where
an instruction uses what it has checked some actions before.
-/
import ContractVM.Proofs.Exec.Kept
import ContractVM.Proofs.Exec.Unlocked

namespace ContractVM

/-! ## Evaluation spends gas and nothing else -/

/-- However it ends, an evaluation has spent gas and made none, and it blames no lock. -/
def Frugal {α : Type} (act : EvalM α) : Prop := ∀ m, match act m with
  | .ok _ m' => m.Spends m'
  | .error c m' => m.Spends m' ∧ c.kind ≠ .reentrancyBlocked

namespace Frugal

variable {α β : Type}

theorem pure (a : α) : Frugal (Pure.pure a) := fun m => .refl m

theorem bind {act : EvalM α} {f : α → EvalM β} (h : Frugal act) (hf : ∀ a, Frugal (f a)) :
    Frugal (act >>= f) := by
  intro m
  show match EStateM.bind act f m with
    | .ok _ m' => m.Spends m'
    | .error c m' => m.Spends m' ∧ c.kind ≠ .reentrancyBlocked
  have ha := h m
  unfold EStateM.bind
  cases hm : act m with
  | error c m' => rw [hm] at ha; exact ha
  | ok a m' =>
    rw [hm] at ha
    have hb := hf a m'
    simp only
    cases hr : f a m' with
    | error c m'' => rw [hr] at hb; exact ⟨ha.trans hb.1, hb.2⟩
    | ok b m'' => rw [hr] at hb; exact ha.trans hb

theorem lift {r : Except Cause α} (h : Unlocked r) : Frugal (Eval.lift r) := by
  intro m
  cases r with
  | ok a => exact .refl m
  | error c => exact ⟨.refl m, h c rfl⟩

theorem spend {n : Int} (hn : 0 ≤ n) : Frugal (Eval.spend n) := by
  intro m
  unfold Eval.spend
  cases hm : m.charge n with
  | ok m' => exact .of_charge hn hm
  | error c => exact ⟨.refl m, Unlocked.charge m n c hm⟩

theorem get : Frugal (MonadState.get : EvalM GasMeter) := fun m => .refl m

end Frugal

mutual
theorem Expr.eval_frugal (s : Sight) : ∀ e : Expr, Frugal (e.eval s)
  | .const v => .pure v
  | .arg _ => .lift (.named nofun)
  | .local _ => .lift (.named nofun)
  | .env _ => .bind (.lift (.ensureReadable s _)) fun _ => .bind .get fun _ => .pure _
  | .balance of =>
    .bind (.lift (.ensureReadable s _)) fun _ => .bind (of.eval_frugal s) fun v =>
      .bind (.lift (.asAddress v)) fun _ =>
      .bind (.spend (by decide)) fun _ => .pure _
  | .slot _ keys => .bind (Expr.evalAll_frugal s keys) fun _ => .pure _
  | .sload key =>
    .bind (.lift (.ensureReadable s _)) fun _ => .bind (key.eval_frugal s) fun _ =>
      .bind (.spend (by decide)) fun _ => .pure _
  | .bin _ left right =>
    .bind (left.eval_frugal s) fun l => .bind (right.eval_frugal s) fun r =>
      .bind (.spend (by decide)) fun _ => .lift (.apply _ l r)
  | .not e =>
    .bind (e.eval_frugal s) fun v => .bind (.lift (.asBool v)) fun _ =>
      .bind (.spend (by decide)) fun _ => .pure _

theorem Expr.evalAll_frugal (s : Sight) : ∀ es : List Expr, Frugal (Expr.evalAll s es)
  | [] => .pure []
  | e :: rest =>
    .bind (e.eval_frugal s) fun _ => .bind (Expr.evalAll_frugal s rest) fun _ => .pure _
end

theorem Expr.evalArgs_frugal (s : Sight) (args : List (String × Expr)) (done : Args) :
    Frugal (Expr.evalArgs s args done) := by
  induction args generalizing done with
  | nil => exact .pure done
  | cons a rest ih => exact .bind (a.2.eval_frugal s) fun _ => ih _

/-! ## Following the relation -/

theorem Exec.bind_ok {α β : Type} {act : ExecM α} {f : α → ExecM β} {s t : Site} {a : α}
    (h : act s = .ok a t) : (act >>= f) s = f a t := by
  show EStateM.bind act f s = f a t
  unfold EStateM.bind
  rw [h]

theorem Exec.bind_error {α β : Type} {act : ExecM α} {f : α → ExecM β} {s t : Site} {e : Fault}
    (h : act s = .error e t) : (act >>= f) s = .error e t := by
  show EStateM.bind act f s = .error e t
  unfold EStateM.bind
  rw [h]

/-- The site at which an action ended, with a value or with a fault. -/
def Exec.endSite {α : Type} : EStateM.Result Fault Site α → Site
  | .ok _ t => t
  | .error _ t => t

/-- A result that a run from `s` can end with, with `Q` of its value and site. -/
def Reaches {α : Type} (p : Place) (s : Site) (r : EStateM.Result Fault Site α)
    (Q : α → Site → Prop) : Prop :=
  match r with
  | .ok a t => Run p s none t ∧ Q a t
  | .error f t => Run p s (some f) t

/-- An action that, started at `s`, does what the place `p` allows. -/
def Follows {α : Type} (p : Place) (s : Site) (act : ExecM α) (Q : α → Site → Prop) : Prop :=
  Reaches p s (act s) Q

def Anything {α : Type} : α → Site → Prop := fun _ _ => True

section Combinators

variable {α β : Type} {p : Place} {s : Site} {Q : α → Site → Prop} {R : β → Site → Prop}

theorem Reaches.mono {r : EStateM.Result Fault Site α} {Q' : α → Site → Prop}
    (h : Reaches p s r Q) (hq : ∀ a t, Q a t → Q' a t) : Reaches p s r Q' := by
  cases r with
  | ok a t => exact ⟨h.1, hq a t h.2⟩
  | error f t => exact h

theorem Follows.anything {act : ExecM α} (h : Follows p s act Q) : Follows p s act Anything :=
  Reaches.mono h fun _ _ _ => trivial

theorem Follows.get {f : Site → ExecM β} (h : Follows p s (f s) R) :
    Follows p s (MonadState.get >>= f) R := h

theorem Follows.modify {f : Site → Site} (h : Run p s none (f s)) :
    Follows p s (modify f) (fun _ t => t = f s) := ⟨h, rfl⟩

variable [p.Inner]

theorem Reaches.after {t : Site} {r : EStateM.Result Fault Site α} (h : Run p s none t)
    (hr : Reaches p t r Q) : Reaches p s r Q := by
  cases r with
  | ok a u => exact ⟨h.trans hr.1, hr.2⟩
  | error f u => exact h.trans hr

theorem Follows.pure {a : α} (h : Q a s) : Follows p s (Pure.pure a) Q := ⟨.refl, h⟩

theorem Follows.bind {act : ExecM α} {f : α → ExecM β} (h : Follows p s act Q)
    (hf : ∀ a t, Q a t → Follows p t (f a) R) : Follows p s (act >>= f) R := by
  unfold Follows at h ⊢
  cases hr : act s with
  | ok a t =>
    rw [hr] at h
    rw [Exec.bind_ok hr]
    exact Reaches.after h.1 (hf a t h.2)
  | error g t =>
    rw [hr] at h
    rw [Exec.bind_error hr]
    exact h

end Combinators

/-! ## Elementary actions -/

def Site.Paid (s t : Site) : Prop := ∃ m, s.frame.meter.Spends m ∧ t = s.withMeter m

theorem Site.Paid.trans {s t u : Site} (hst : s.Paid t) (htu : t.Paid u) : s.Paid u := by
  obtain ⟨m, hm, rfl⟩ := hst
  obtain ⟨m', hm', rfl⟩ := htu
  exact ⟨m', hm.trans hm', rfl⟩

theorem Site.Paid.run {p : Place} [p.Inner] {s t : Site} (h : s.Paid t) : Run p s none t := by
  obtain ⟨m, hm, rfl⟩ := h
  exact .spend hm

namespace Exec

variable {p : Place} [p.Inner] {sc : Scope} {s : Site}

theorem fail_follows {α : Type} {c : Cause} (h : c.kind ≠ .reentrancyBlocked)
    {Q : α → Site → Prop} : Follows p s (fail c) Q := .raise c h

theorem lift_follows {α : Type} {r : Except Cause α} (h : Unlocked r) :
    Follows p s (lift r) (fun a t => t = s ∧ r = .ok a) := by
  cases r with
  | ok a => exact ⟨.refl, rfl, rfl⟩
  | error c => exact .raise c (h c rfl)

theorem spend_eq_ok {n : Int} {m : GasMeter} (h : s.frame.meter.charge n = .ok m) :
    spend n s = .ok () (s.withMeter m) := by
  unfold spend
  rw [h]

theorem spend_eq_error {n : Int} {c : Cause} (h : s.frame.meter.charge n = .error c) :
    spend n s = .error (.raised c false) s := by
  unfold spend
  rw [h]

theorem spend_follows {n : Int} (hn : 0 ≤ n) : Follows p s (spend n) (fun _ t => s.Paid t) := by
  unfold Follows
  cases hm : s.frame.meter.charge n with
  | ok m =>
    rw [spend_eq_ok hm]
    exact ⟨.spend (.of_charge hn hm), m, .of_charge hn hm, rfl⟩
  | error c =>
    rw [spend_eq_error hm]
    exact .raise c (Unlocked.charge _ _ c hm)

theorem transfer_eq_ok {a b : Address} {n : Int} {storage : Storage}
    (h : s.world.storage.transfer a b n = .ok storage) :
    transfer a b n s = .ok () (s.withStorage storage) := by
  unfold transfer
  rw [h]

theorem transfer_eq_error {a b : Address} {n : Int} {f : Fault}
    (h : s.world.storage.transfer a b n = .error f) : transfer a b n s = .error f s := by
  unfold transfer
  rw [h]

theorem transfer_error_run {a b : Address} {n : Int} {f : Fault}
    (h : s.world.storage.transfer a b n = .error f) : Run p s (some f) s := by
  rcases Storage.transfer_eq_error h with ⟨m, rfl, hl⟩ | ⟨c, rfl, hc⟩
  · exact Run.stuck m s.frame.meter (.inl hl)
  · exact .raise c hc

theorem write_follows {key : String} {v : Value} (may : sc.MayWrite s.frame.flags) :
    Follows (.body sc) s (write key v) Anything := by
  unfold Follows write
  cases hs : s.world.storage.write s.frame.ctx.self key v s.frame.meter with
  | ok r => exact ⟨.write may hs, trivial⟩
  | error f =>
    rcases Storage.write_eq_error hs with ⟨m, rfl, hl⟩ | ⟨c, n, rfl, hc⟩
    · exact Run.stuck m s.frame.meter (.inl hl)
    · exact .raise c (Unlocked.charge _ n c hc)

theorem lock_eq_ok {a : Address} (h : a ∉ s.world.locks) : lock a s = .ok ⟨a, true⟩ (s.lock a) := by
  unfold lock Locks.enter
  rw [if_neg h]
  rfl

theorem lock_eq_error {a : Address} (h : a ∈ s.world.locks) :
    lock a s = .error (.raised (.alreadyEntered a) false) s := by
  unfold lock Locks.enter
  rw [if_pos h]

theorem move_eq (next : Phase) (h : next ∈ s.frame.phase.following) :
    ∃ f, s.frame.transition next = .ok f ∧ move next s = .ok () { s with frame := f } := by
  obtain ⟨f, hf⟩ := Frame.transition_of_mem next h
  refine ⟨f, hf, ?_⟩
  unfold move
  rw [hf]

theorem onlyIf_fail_follows (b : Bool) {c : Cause} (h : c.kind ≠ .reentrancyBlocked) :
    Follows p s (onlyIf b (fail c)) (fun _ t => t = s ∧ b = false) := by
  cases b with
  | true => exact .raise c h
  | false => exact ⟨.refl, rfl, rfl⟩

theorem ensureWritable_follows (what : String) :
    Follows p s (ensureWritable sc what) (fun _ t => t = s ∧ sc.MayWrite s.frame.flags) := by
  unfold Follows ensureWritable
  by_cases hst : s.frame.flags.isStatic = true
  · rw [if_pos hst]
    exact .raise _ nofun
  · rw [if_neg hst]
    have hf : s.frame.flags.isStatic = false := Bool.eq_false_iff.2 hst
    cases hm : sc.mutability with
    | view => exact .raise _ nofun
    | pure => exact .raise _ nofun
    | mutating => exact ⟨.refl, rfl, hf, by rw [hm]; decide⟩
    | payable => exact ⟨.refl, rfl, hf, by rw [hm]; decide⟩

theorem evaluating_follows {α : Type} {act : Sight → EvalM α} (h : ∀ v, Frugal (act v)) :
    Follows p s (evaluating sc act) (fun _ t => s.Paid t) := by
  have hf := h (sight sc s) s.frame.meter
  unfold Follows evaluating
  cases hr : act (sight sc s) s.frame.meter with
  | ok a m =>
    rw [hr] at hf
    exact ⟨.spend hf, m, hf, rfl⟩
  | error c m =>
    rw [hr] at hf
    exact (Run.spend hf.1).trans (.raise c hf.2)

theorem value_follows (e : Expr) : Follows p s (value sc e) (fun _ t => s.Paid t) :=
  evaluating_follows fun v => e.eval_frugal v

theorem arguments_follows (args : Option (Table Expr)) :
    Follows p s (arguments sc args) (fun _ t => s.Paid t) :=
  evaluating_follows fun v => Expr.evalArgs_frugal v _ _

theorem condition_follows (e : Expr) : Follows p s (condition sc e) (fun _ t => s.Paid t) :=
  (value_follows e).bind fun v _ ht => (lift_follows (.asBool v)).mono fun _ _ h => h.1 ▸ ht

theorem optionalUint_follows (e : Option Expr) :
    Follows p s (optionalUint sc e) (fun a t => s.Paid t ∧ (e = none → a = none)) := by
  cases e with
  | none => exact .pure ⟨⟨_, .refl _, rfl⟩, fun _ => rfl⟩
  | some e =>
    exact (value_follows e).bind fun v t ht => (lift_follows (.asUint v)).bind fun a u hu => by
      obtain ⟨rfl, -⟩ := hu
      exact .pure ⟨ht, fun h => nomatch h⟩

theorem setLocal_follows (name : String) (v : Value) :
    Follows (.body sc) s (setLocal name v) Anything := ⟨.assign name v, trivial⟩

theorem setResult_follows (name : Option String) (v : Option Value) :
    Follows (.body sc) s (setResult name v) Anything := by
  cases name with
  | none => exact .pure trivial
  | some name =>
    cases v with
    | none => exact .pure trivial
    | some v => exact setLocal_follows name v

theorem setNamed_follows (name : Option String) (v : Value) :
    Follows (.body sc) s (setNamed name v) Anything := by
  cases name with
  | none => exact .pure trivial
  | some name =>
    unfold setNamed
    simp only
    split
    · exact .pure trivial
    · exact setLocal_follows name v

end Exec

end ContractVM
