/-
Code without negative constants never asks for a negative budget.

A frame that calls with less than no gas gives up the whole transaction, with a fault that
goes to the host.  `Keeps` says of an action that it does no such thing at a site where
nothing is negative, and that nothing is negative where it ends.  There is one lemma for
every action that code is made of, and by induction over the nesting of bodies
`attempt_keeps` says it of whole frames.
-/
import ContractVM.Proofs.Exec.Solvent
import ContractVM.Proofs.Exec.Unsigned

namespace ContractVM

/-! ## Sites where nothing is negative -/

def Event.Unsigned (e : Event) : Prop := ∀ f ∈ e.fields, f.value.unsigned = true

structure Frame.Unsigned (f : Frame) : Prop where
  ctx : f.ctx.Unsigned
  meter : f.meter.Solvent
  pending : ∀ e ∈ f.pending, e.Unsigned

structure Site.Unsigned (s : Site) : Prop where
  storage : s.world.storage.Unsigned
  locals : Args.Unsigned s.locals
  frame : s.frame.Unsigned

structure Environment.Unsigned (env : Environment) : Prop where
  contracts : ∀ a c, env.registry.find? a = some c → c.unsigned = true
  timestamp : 0 ≤ env.block.timestamp
  number : 0 ≤ env.block.number

structure Scope.Unsigned (sc : Scope) : Prop where
  env : sc.env.Unsigned
  contract : sc.contract.unsigned = true
  args : sc.args.Unsigned

namespace Frame.Unsigned

variable {f g : Frame}

theorem transition (h : f.Unsigned) {next : Phase} (hg : f.transition next = .ok g) : g.Unsigned := by
  rw [(transition_eq_ok hg).2]
  exact { h with }

theorem release (h : f.Unsigned) (child : Frame) : (f.release child).Unsigned := by
  unfold Frame.release
  split
  · exact { h with }
  · exact h

theorem withMeter (h : f.Unsigned) {m : GasMeter} (hm : m.Solvent) :
    { f with meter := m : Frame }.Unsigned := { h with meter := hm }

theorem emit (h : f.Unsigned) {e : Event} (he : e.Unsigned) : (f.emit e).Unsigned := by
  refine ⟨h.ctx, h.meter, fun e' he' => ?_⟩
  rcases List.mem_append.1 he' with he' | he'
  · exact h.pending e' he'
  · rw [List.mem_singleton.1 he']
    exact he

theorem terminate (h : f.Unsigned) (a : Address) : (f.terminate a).Unsigned := { h with }

theorem hold (h : f.Unsigned) (token : LockToken) : (f.hold token).Unsigned := { h with }

end Frame.Unsigned

namespace Site.Unsigned

variable {s t : Site}

theorem withStorage (h : s.Unsigned) {storage : Storage} (hs : storage.Unsigned) :
    (s.withStorage storage).Unsigned := ⟨hs, h.locals, h.frame⟩

theorem withMeter (h : s.Unsigned) {m : GasMeter} (hm : m.Solvent) : (s.withMeter m).Unsigned :=
  ⟨h.storage, h.locals, h.frame.withMeter hm⟩

theorem note (h : s.Unsigned) (step : Step) : (s.note step).Unsigned :=
  ⟨h.storage, h.locals, h.frame⟩

theorem unlock (h : s.Unsigned) (tokens : List LockToken) : (s.unlock tokens).Unsigned :=
  ⟨h.storage, h.locals, h.frame⟩

theorem leave (locals : Args.Unsigned s.locals) (storage : t.world.storage.Unsigned) {parent : Frame}
    (h : parent.Unsigned) : (s.leave t parent).Unsigned :=
  ⟨storage, locals, h.release _⟩

theorem sight (h : s.Unsigned) {sc : Scope} (hsc : sc.Unsigned) : (Exec.sight sc s).Unsigned :=
  ⟨h.frame.ctx, hsc.args, h.locals, h.storage⟩

end Site.Unsigned

/-! ## Actions -/

/-- A result that asks for no negative budget, at a site where nothing is negative. -/
def Polite {α : Type} (Q : α → Prop) : EStateM.Result Fault Site α → Prop
  | .ok a t => t.Unsigned ∧ Q a
  | .error f t => t.Unsigned ∧ f ≠ .negativeBudget

def Keeps {α : Type} (act : ExecM α) (Q : α → Prop) : Prop := ∀ s, s.Unsigned → Polite Q (act s)

/-- For an action whose value does not matter. -/
def Whatever {α : Type} : α → Prop := fun _ => True

section Combinators

variable {α β : Type} {Q : α → Prop} {R : β → Prop}

namespace Keeps

theorem pure {a : α} (h : Q a) : Keeps (Pure.pure a) Q := fun _ hs => ⟨hs, h⟩

theorem bind {act : ExecM α} {f : α → ExecM β} (h : Keeps act Q) (hf : ∀ a, Q a → Keeps (f a) R) :
    Keeps (act >>= f) R := by
  intro s hs
  have ha := h s hs
  cases hr : act s with
  | ok a t =>
    rw [hr] at ha
    rw [Exec.bind_ok hr]
    exact hf a ha.2 t ha.1
  | error g t =>
    rw [hr] at ha
    rw [Exec.bind_error hr]
    exact ha

theorem map {act : ExecM α} (f : α → β) (h : Keeps act Q) : Keeps (f <$> act) Whatever := by
  intro s hs
  have ha := h s hs
  show Polite _ (EStateM.map f act s)
  unfold EStateM.map
  cases hr : act s with
  | ok a t =>
    rw [hr] at ha
    exact ⟨ha.1, trivial⟩
  | error g t =>
    rw [hr] at ha
    exact ha

theorem get {f : Site → ExecM β} (hf : ∀ s, s.Unsigned → Keeps (f s) R) :
    Keeps (MonadState.get >>= f) R := fun s hs => hf s hs s hs

theorem ite {c : Prop} [Decidable c] {act els : ExecM α} (h : Keeps act Q) (h' : Keeps els Q) :
    Keeps (if c then act else els) Q := by
  split
  · exact h
  · exact h'

theorem modify {f : Site → Site} (hf : ∀ s, s.Unsigned → (f s).Unsigned) :
    Keeps (modify f) Whatever := fun s hs => ⟨hf s hs, trivial⟩

end Keeps

end Combinators

/-! ## Elementary actions -/

namespace Exec

variable {α : Type} {Q : α → Prop} {sc : Scope}

theorem fail_keeps (c : Cause) : Keeps (fail c) Q := fun _ hs => ⟨hs, nofun⟩

theorem lift_keeps {r : Except Cause α} (h : ∀ a, r = .ok a → Q a) : Keeps (lift r) Q := by
  intro s hs
  cases r with
  | ok a => exact ⟨hs, h a rfl⟩
  | error c => exact ⟨hs, nofun⟩

theorem note_keeps (step : Step) : Keeps (note step) Whatever := fun _ hs => ⟨hs.note step, trivial⟩

theorem boundary_keeps : Keeps boundary Whatever := fun _ hs => ⟨hs.note _, trivial⟩

theorem setLocal_keeps (name : String) {v : Value} (hv : v.unsigned = true) :
    Keeps (setLocal name v) Whatever :=
  fun _ hs => ⟨⟨hs.storage, hs.locals.set name hv, hs.frame⟩, trivial⟩

theorem setNamed_keeps (name : Option String) {v : Value} (hv : v.unsigned = true) :
    Keeps (setNamed name v) Whatever := by
  unfold setNamed
  split
  · split
    · exact .pure trivial
    · exact setLocal_keeps _ hv
  · exact .pure trivial

theorem setResult_keeps (name : Option String) {v : Option Value}
    (hv : ∀ w, v = some w → w.unsigned = true) : Keeps (setResult name v) Whatever := by
  unfold setResult
  split
  · exact setLocal_keeps _ (hv _ rfl)
  · exact .pure trivial

theorem spend_keeps {n : Int} (hn : 0 ≤ n) : Keeps (spend n) Whatever := by
  intro s hs
  cases hm : s.frame.meter.charge n with
  | ok m =>
    rw [spend_eq_ok hm]
    exact ⟨hs.withMeter (hs.frame.meter.of_spends (.of_charge hn hm)), trivial⟩
  | error c =>
    rw [spend_eq_error hm]
    exact ⟨hs, nofun⟩

theorem transfer_keeps (source target : Address) (amount : Int) :
    Keeps (transfer source target amount) Whatever := by
  intro s hs
  cases ht : s.world.storage.transfer source target amount with
  | ok storage =>
    rw [transfer_eq_ok ht]
    exact ⟨hs.withStorage (hs.storage.transfer ht), trivial⟩
  | error f =>
    rw [transfer_eq_error ht]
    rcases Storage.transfer_eq_error ht with ⟨m, rfl, -⟩ | ⟨c, rfl, -⟩
    · exact ⟨hs, nofun⟩
    · exact ⟨hs, nofun⟩

theorem write_keeps (key : String) {v : Value} (hv : v.unsigned = true) :
    Keeps (write key v) Whatever := by
  intro s hs
  unfold write
  cases hw : s.world.storage.write s.frame.ctx.self key v s.frame.meter with
  | ok r =>
    obtain ⟨cls, storage, m⟩ := r
    obtain ⟨hstorage, -, hcharge⟩ := Storage.write_eq_ok hw
    have hfee : 0 ≤ cls.fee := by cases cls <;> decide
    have spends : s.frame.meter.Spends m := .of_charge hfee hcharge
    exact ⟨(hs.withStorage (hs.storage.setSlot hv hstorage)).withMeter
      (hs.frame.meter.of_spends spends), trivial⟩
  | error f =>
    rcases Storage.write_eq_error hw with ⟨m, rfl, -⟩ | ⟨c, n, rfl, -⟩
    · exact ⟨hs, nofun⟩
    · exact ⟨hs, nofun⟩

theorem move_keeps (next : Phase) : Keeps (move next) Whatever := by
  intro s hs
  unfold move
  cases hf : s.frame.transition next with
  | ok f => exact ⟨⟨hs.storage, hs.locals, hs.frame.transition hf⟩, trivial⟩
  | error m => exact ⟨hs, nofun⟩

theorem onlyIf_keeps (b : Bool) {act : ExecM Unit} (h : Keeps act Whatever) :
    Keeps (onlyIf b act) Whatever := by
  cases b with
  | true => exact h
  | false => exact .pure trivial

theorem lock_keeps (a : Address) : Keeps (lock a) Whatever := by
  intro s hs
  by_cases ha : a ∈ s.world.locks
  · rw [lock_eq_error ha]
    exact ⟨hs, nofun⟩
  · rw [lock_eq_ok ha]
    exact ⟨⟨hs.storage, hs.locals, hs.frame⟩, trivial⟩

theorem holdLock_keeps (a : Address) : Keeps (holdLock a) Whatever :=
  (lock_keeps a).bind fun _ _ => .modify fun _ hs => ⟨hs.storage, hs.locals, hs.frame.hold _⟩

theorem releasing_keeps (tokens : List LockToken) {act : ExecM α} (h : Keeps act Q) :
    Keeps (releasing tokens act) Q := by
  intro s hs
  have ha := h s hs
  unfold releasing
  cases hr : act s with
  | ok a t =>
    rw [hr] at ha
    exact ⟨ha.1.unlock tokens, ha.2⟩
  | error f t =>
    rw [hr] at ha
    exact ⟨ha.1.unlock tokens, ha.2⟩

theorem freshLocals_keeps {act : ExecM α} (h : Keeps act Q) : Keeps (freshLocals act) Q := by
  intro s hs
  have ha := h { s with locals := ∅ } ⟨hs.storage, .empty, hs.frame⟩
  unfold freshLocals
  cases hr : act { s with locals := ∅ } with
  | ok a t =>
    rw [hr] at ha
    exact ⟨⟨ha.1.storage, hs.locals, ha.1.frame⟩, ha.2⟩
  | error f t =>
    rw [hr] at ha
    exact ⟨⟨ha.1.storage, hs.locals, ha.1.frame⟩, ha.2⟩

theorem ensureWritable_keeps (what : String) : Keeps (ensureWritable sc what) Whatever := by
  intro s hs
  unfold ensureWritable
  split
  · exact ⟨hs, nofun⟩
  · split
    · exact ⟨hs, nofun⟩
    · exact ⟨hs, nofun⟩
    · exact ⟨hs, trivial⟩
    · exact ⟨hs, trivial⟩

/-! ## Operands -/

variable (hsc : sc.Unsigned)

include hsc

theorem evaluating_keeps {act : Sight → EvalM α} (frugal : ∀ v, Frugal (act v))
    (h : ∀ v : Sight, v.Unsigned → Yields (act v) Q) : Keeps (evaluating sc act) Q := by
  intro s hs
  have hspends := frugal (sight sc s) s.frame.meter
  unfold evaluating
  cases hr : act (sight sc s) s.frame.meter with
  | ok a m =>
    rw [hr] at hspends
    exact ⟨hs.withMeter (hs.frame.meter.of_spends hspends),
      h _ (hs.sight hsc) _ a m hs.frame.meter.nonneg hr⟩
  | error c m =>
    rw [hr] at hspends
    exact ⟨hs.withMeter (hs.frame.meter.of_spends hspends.1), nofun⟩

theorem value_keeps {e : Expr} (he : e.unsigned = true) :
    Keeps (value sc e) fun v => v.unsigned = true :=
  evaluating_keeps hsc (fun v => e.eval_frugal v) fun _ hv => e.eval_unsigned hv he

theorem operand_keeps (e : Expr) : Keeps (value sc e) Whatever :=
  evaluating_keeps hsc (fun v => e.eval_frugal v) fun _ _ => .any _

theorem condition_keeps (e : Expr) : Keeps (condition sc e) Whatever :=
  (operand_keeps hsc e).bind fun _ _ => lift_keeps fun _ _ => trivial

theorem arguments_keeps (args : Option (Table Expr)) : Keeps (arguments sc args) Whatever :=
  evaluating_keeps hsc (fun v => Expr.evalArgs_frugal v _ _) fun _ _ => .any _

theorem optionalUint_keeps {e : Option Expr} (he : e.all Expr.unsigned = true) :
    Keeps (optionalUint sc e) fun n => ∀ i, n = some i → 0 ≤ i := by
  cases e with
  | none => exact .pure fun _ h => nomatch h
  | some e =>
    refine (value_keeps hsc he).bind fun v hv => ?_
    refine (lift_keeps fun n hn => Value.unsigned_of_asUint hv hn).bind fun n hn => .pure fun i hi => ?_
    cases hi
    exact hn

end Exec

end ContractVM
