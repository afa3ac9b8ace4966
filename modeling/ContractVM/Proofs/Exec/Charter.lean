/-
What may be told of a run of code that was checked.

A `Charter` names the events that may be logged and the fields of events that may turn out to
be unset, whatever contracts are at hand.  A site is under it if it has buffered and recorded
nothing else: no frame has failed for an event that is not declared, and for a function that
does not exist only before its first instruction.  `Obeys` says of an action that it keeps a
site under the charter; there is one lemma for every elementary action.
-/
import ContractVM.Proofs.Event.Query
import ContractVM.Proofs.Exec.Ordinary
import ContractVM.Proofs.Exec.PoliteCode

namespace ContractVM

/-! ## Charters -/

namespace Contract

/-- The event is one that the contract declares. -/
def Logs (c : Contract) (e : Event) : Prop :=
  ∃ decl, c.events.get? e.name = some decl ∧ e.Shows decl

end Contract

structure Charter where
  logs : Event → Prop
  /-- The field of the event may be found unset. -/
  unset : String → String → Prop

variable {T : Charter}

/-- A contract that passed its check, with no more events and unset fields than the charter
names. -/
structure Contract.Meets (c : Contract) (T : Charter) : Prop where
  check : c.check = .ok ()
  logs : ∀ e, c.Logs e → T.logs e
  unset : ∀ event field, c.Leaves event field → T.unset event field

/-- Some frame failed so, and not because of one that it called. -/
def Trail.Blames (t : Trail) (c : Cause) : Prop :=
  ∃ f depth code left, .reverted f depth code c false left ∈ t

namespace Charter

/-- Whether a frame may fail so, after the steps `t`, once its code runs. -/
def Allows (T : Charter) (t : Trail) (propagated : Bool) : Cause → Prop
  | .undeclaredEvent _ => False
  | .fieldNotSet event field => T.unset event field
  | .noFunction contract fn => propagated = true ∧ t.Blames (.noFunction contract fn)
  | _ => True

theorem allows_of_ordinary {c : Cause} (h : c.ordinary = true) (t : Trail) (p : Bool) :
    T.Allows t p c := by
  cases c with
  | undeclaredEvent | fieldNotSet | noFunction | alreadyEntered => cases h
  | _ => trivial

/-- A failure may be passed on, and nothing that is recorded since forbids it. -/
theorem Allows.later {t t' : Trail} {c : Cause} {p q : Bool} (h : T.Allows t p c)
    (later : ∀ step ∈ t, step ∈ t') (hq : p = true → q = true) : T.Allows t' q c := by
  cases c with
  | noFunction =>
    obtain ⟨hp, f, depth, code, left, hmem⟩ := h
    exact ⟨hq hp, f, depth, code, left, later _ hmem⟩
  | _ => exact h

end Charter

/-- The frame `f` was opened and nothing was recorded of it since, and what it was called for
does not exist. -/
def Trail.Unentered (f : Nat) (before : Trail) (c : Cause) : Prop :=
  (∃ contract fn, c = .noFunction contract fn) ∧
    ∃ parent depth self code budget earlier,
      before = .opened f parent depth self code budget :: earlier

/-- A frame may fail so when its code runs, or it is refused before. -/
def Charter.Admits (T : Charter) (f : Nat) (before : Trail) (p : Bool) (c : Cause) : Prop :=
  T.Allows before p c ∨ p = false ∧ before.Unentered f c

/-- What may be recorded after `before`. -/
def Step.Allowed (T : Charter) (before : Trail) : Step → Prop
  | .reverted f _ _ c p _ => T.Admits f before p c
  | _ => True

/-- Every step was allowed when it was recorded. -/
def Trail.Allowed (T : Charter) : Trail → Prop
  | [] => True
  | step :: before => step.Allowed T before ∧ Trail.Allowed T before

/-- A charter that leaves more fields unset allows more. -/
theorem Trail.Allowed.mono {T' : Charter} {t : Trail} (h : t.Allowed T)
    (unset : ∀ event field, T.unset event field → T'.unset event field) : t.Allowed T' := by
  have allows {before : Trail} {p : Bool} {c : Cause} (h : T.Allows before p c) :
      T'.Allows before p c := by
    cases c with
    | fieldNotSet event field => exact unset event field h
    | _ => exact h
  induction t with
  | nil => trivial
  | cons step before ih =>
    refine ⟨?_, ih h.2⟩
    cases step with
    | reverted f depth code c p left => exact h.1.imp_left allows
    | _ => trivial

structure Site.Under (s : Site) (T : Charter) : Prop where
  pending : ∀ e ∈ s.frame.pending, T.logs e
  trail : s.world.trail.Allowed T

structure Environment.Under (env : Environment) (T : Charter) : Prop where
  contracts : ∀ a c, env.registry.find? a = some c → c.Meets T

structure Scope.Under (sc : Scope) (T : Charter) : Prop where
  env : sc.env.Under T
  contract : sc.contract.Meets T

theorem Trail.Allowed.releases {t : Trail} (h : t.Allowed T) (f : Nat) (tokens : List LockToken) :
    Trail.Allowed T ((tokens.map fun l => Step.unlocked f l.address).reverse ++ t) := by
  induction tokens generalizing t with
  | nil => exact h
  | cons l rest ih =>
    rw [List.map_cons, List.reverse_cons, List.append_assoc]
    exact ih ⟨trivial, h⟩

namespace Site.Under

variable {s t : Site}

theorem of_same (h : s.Under T) (pending : t.frame.pending = s.frame.pending)
    (trail : t.world.trail = s.world.trail) : t.Under T where
  pending := pending ▸ h.pending
  trail := trail ▸ h.trail

theorem note (h : s.Under T) {step : Step} (allowed : step.Allowed T s.world.trail) :
    (s.note step).Under T := ⟨h.pending, allowed, h.trail⟩

theorem unlock (h : s.Under T) (tokens : List LockToken) : (s.unlock tokens).Under T :=
  ⟨h.pending, h.trail.releases s.frame.id tokens⟩

end Site.Under

/-! ## Actions -/

/-- A result under the charter, with a value that has `Q` or a failure that is allowed. -/
def Passes {α : Type} (T : Charter) (Q : α → Prop) : EStateM.Result Fault Site α → Prop
  | .ok a t => t.Under T ∧ Q a
  | .error f t => t.Under T ∧ ∀ c p, f = .raised c p → T.Allows t.world.trail p c

def Obeys {α : Type} (T : Charter) (act : ExecM α) (Q : α → Prop) : Prop :=
  ∀ s, s.Under T → Passes T Q (act s)

section Combinators

variable {α β : Type} {Q : α → Prop} {R : β → Prop}

theorem Passes.raised {c : Cause} {p : Bool} {t : Site} (ht : t.Under T)
    (h : T.Allows t.world.trail p c) : Passes T Q (.error (.raised c p) t) := by
  refine ⟨ht, fun c' p' heq => ?_⟩
  cases heq
  exact h

namespace Obeys

theorem pure {a : α} (h : Q a) : Obeys T (Pure.pure a) Q := fun _ hs => ⟨hs, h⟩

theorem bind {act : ExecM α} {f : α → ExecM β} (h : Obeys T act Q)
    (hf : ∀ a, Q a → Obeys T (f a) R) : Obeys T (act >>= f) R := by
  intro s hs
  have ha := h s hs
  cases hr : act s with
  | ok a t =>
    rw [hr] at ha
    rw [Exec.bind_ok hr]
    exact hf a ha.2 t ha.1
  | error g t =>
    rw [hr] at ha
    rw [Exec.bind_error hr]
    exact ha

theorem map {act : ExecM α} (f : α → β) (h : Obeys T act Q) : Obeys T (f <$> act) Whatever := by
  rw [map_eq_pure_bind]
  exact h.bind fun _ _ => .pure trivial

theorem get {f : Site → ExecM β} (hf : ∀ s, Obeys T (f s) R) :
    Obeys T (MonadState.get >>= f) R := fun s hs => hf s s hs

theorem ite {c : Prop} [Decidable c] {act els : ExecM α} (h : Obeys T act Q) (h' : Obeys T els Q) :
    Obeys T (if c then act else els) Q := by
  split
  · exact h
  · exact h'

theorem modify {f : Site → Site} (hf : ∀ s, s.Under T → (f s).Under T) :
    Obeys T (modify f) Whatever := fun s hs => ⟨hf s hs, trivial⟩

end Obeys

end Combinators

/-! ## Elementary actions -/

namespace Exec

variable {α : Type} {Q : α → Prop} {sc : Scope}

theorem fail_obeys {c : Cause} (h : ∀ t, T.Allows t false c) : Obeys T (fail c) Q :=
  fun _ hs => .raised hs (h _)

theorem lift_obeys {r : Except Cause α} (ordinary : Ordinary r) (h : ∀ a, r = .ok a → Q a) :
    Obeys T (lift r) Q := by
  intro s hs
  cases r with
  | ok a => exact ⟨hs, h a rfl⟩
  | error c => exact .raised hs (Charter.allows_of_ordinary (ordinary c rfl) _ false)

/-- For a check whose value does not matter. -/
theorem check_obeys {r : Except Cause α} (ordinary : Ordinary r) : Obeys T (lift r) Whatever :=
  lift_obeys ordinary fun _ _ => trivial

theorem note_obeys {step : Step} (h : ∀ before, step.Allowed T before) :
    Obeys T (note step) Whatever := fun _ hs => ⟨hs.note (h _), trivial⟩

theorem boundary_obeys : Obeys T boundary Whatever := fun _ hs => ⟨hs.note trivial, trivial⟩

theorem setLocal_obeys (name : String) (v : Value) : Obeys T (setLocal name v) Whatever :=
  fun _ hs => ⟨hs.of_same rfl rfl, trivial⟩

theorem setNamed_obeys (name : Option String) (v : Value) : Obeys T (setNamed name v) Whatever := by
  unfold setNamed
  split
  · exact .ite (.pure trivial) (setLocal_obeys _ v)
  · exact .pure trivial

theorem setResult_obeys (name : Option String) (v : Option Value) :
    Obeys T (setResult name v) Whatever := by
  unfold setResult
  split
  · exact setLocal_obeys _ _
  · exact .pure trivial

theorem spend_obeys (n : Int) : Obeys T (spend n) Whatever := by
  intro s hs
  cases hm : s.frame.meter.charge n with
  | ok m =>
    rw [spend_eq_ok hm]
    exact ⟨hs.of_same rfl rfl, trivial⟩
  | error c =>
    rw [spend_eq_error hm]
    exact .raised hs (Charter.allows_of_ordinary (Ordinary.charge _ _ c hm) _ false)

theorem transfer_obeys (source target : Address) (amount : Int) :
    Obeys T (transfer source target amount) Whatever := by
  intro s hs
  cases ht : s.world.storage.transfer source target amount with
  | ok storage =>
    rw [transfer_eq_ok ht]
    exact ⟨hs.of_same rfl rfl, trivial⟩
  | error f =>
    rw [transfer_eq_error ht]
    refine ⟨hs, fun c p heq => ?_⟩
    subst heq
    exact Charter.allows_of_ordinary (Storage.transfer_ordinary ht).1 _ p

theorem write_obeys (key : String) (v : Value) : Obeys T (write key v) Whatever := by
  intro s hs
  unfold write
  cases hw : s.world.storage.write s.frame.ctx.self key v s.frame.meter with
  | ok r => exact ⟨hs.of_same rfl rfl, trivial⟩
  | error f =>
    rcases Storage.write_eq_error hw with ⟨m, rfl, -⟩ | ⟨c, n, rfl, hcharge⟩
    · exact ⟨hs, nofun⟩
    · exact .raised hs (Charter.allows_of_ordinary (Ordinary.charge _ _ c hcharge) _ false)

theorem move_obeys (next : Phase) : Obeys T (move next) Whatever := by
  intro s hs
  unfold move
  cases hf : s.frame.transition next with
  | ok f => exact ⟨hs.of_same (by rw [(Frame.transition_eq_ok hf).2]) rfl, trivial⟩
  | error m => exact ⟨hs, nofun⟩

theorem onlyIf_obeys (b : Bool) {act : ExecM Unit} (h : Obeys T act Whatever) :
    Obeys T (onlyIf b act) Whatever := by
  cases b with
  | true => exact h
  | false => exact .pure trivial

theorem lock_obeys (a : Address) : Obeys T (lock a) Whatever := by
  intro s hs
  by_cases ha : a ∈ s.world.locks
  · rw [lock_eq_error ha]
    exact .raised hs trivial
  · rw [lock_eq_ok ha]
    exact ⟨⟨hs.pending, trivial, hs.trail⟩, trivial⟩

theorem holdLock_obeys (a : Address) : Obeys T (holdLock a) Whatever :=
  (lock_obeys a).bind fun _ _ => .modify fun _ hs => hs.of_same rfl rfl

theorem releasing_obeys (tokens : List LockToken) {act : ExecM α} (h : Obeys T act Q) :
    Obeys T (releasing tokens act) Q := by
  intro s hs
  have ha := h s hs
  unfold releasing
  cases hr : act s with
  | ok a t =>
    rw [hr] at ha
    exact ⟨ha.1.unlock tokens, ha.2⟩
  | error f t =>
    rw [hr] at ha
    refine ⟨ha.1.unlock tokens, fun c p heq => ?_⟩
    exact (ha.2 c p heq).later (fun _ hstep => List.mem_append_right _ hstep) id

theorem freshLocals_obeys {act : ExecM α} (h : Obeys T act Q) : Obeys T (freshLocals act) Q := by
  intro s hs
  have ha := h { s with locals := ∅ } (hs.of_same rfl rfl)
  unfold freshLocals
  cases hr : act { s with locals := ∅ } with
  | ok a t =>
    rw [hr] at ha
    exact ⟨ha.1.of_same rfl rfl, ha.2⟩
  | error f t =>
    rw [hr] at ha
    exact ⟨ha.1.of_same rfl rfl, ha.2⟩

theorem ensureWritable_obeys (what : String) : Obeys T (ensureWritable sc what) Whatever := by
  intro s hs
  unfold ensureWritable
  split
  · exact .raised hs trivial
  · split
    · exact .raised hs trivial
    · exact .raised hs trivial
    · exact ⟨hs, trivial⟩
    · exact ⟨hs, trivial⟩

/-! ## Operands -/

theorem evaluating_obeys {act : Sight → EvalM α} (h : ∀ v, Calm (act v)) :
    Obeys T (evaluating sc act) Whatever := by
  intro s hs
  unfold evaluating
  cases hr : act (sight sc s) s.frame.meter with
  | ok a m => exact ⟨hs.of_same rfl rfl, trivial⟩
  | error c m =>
    exact .raised (hs.of_same rfl rfl)
      (Charter.allows_of_ordinary (h _ _ c m hr) _ false)

theorem value_obeys (e : Expr) : Obeys T (value sc e) Whatever :=
  evaluating_obeys fun v => e.eval_calm v

theorem condition_obeys (e : Expr) : Obeys T (condition sc e) Whatever :=
  (value_obeys e).bind fun v _ => check_obeys (.asBool v)

theorem arguments_obeys (args : Option (Table Expr)) : Obeys T (arguments sc args) Whatever :=
  evaluating_obeys fun v => Expr.evalArgs_calm v _ _

theorem optionalUint_obeys (e : Option Expr) : Obeys T (optionalUint sc e) Whatever := by
  cases e with
  | none => exact .pure trivial
  | some e =>
    exact (value_obeys e).bind fun v _ => (check_obeys (.asUint v)).bind fun _ _ => .pure trivial

end Exec

end ContractVM
