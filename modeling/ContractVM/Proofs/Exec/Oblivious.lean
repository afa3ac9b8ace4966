/-
Code that reads nothing does the same whatever there is to be read.

Sites are alike (`Site.Alike`) if they differ only in what a pure function may not ask for: who
called, when, and what is persisted.  `Oblivious` says of two actions that they do the same at
sites that are alike.  It is stated of two, because the bodies of two runs stand in
environments of their own, and there is one lemma for every action that code which may not
write is made of.

A pure function may call one that is not, and this may read as much as it likes.  `runUnread`
is `runBody`, except that it gives up before an instruction of such a function reads.  As long
as it does not, `runBody` does the same as it does wherever sites are alike
(`runUnread_oblivious`).
-/
import ContractVM.Proofs.Exec.Nesting
import ContractVM.Proofs.Exec.Reading

namespace ContractVM

/-! ## Code that reads -/

/-- Whether a field says who called, or when. -/
def EnvField.varies : EnvField → Bool
  | .sender | .origin | .timestamp | .blockNumber => true
  | .value | .self | .gasLeft => false

mutual
/-- Whether an expression asks who called, or when, or what is stored. -/
def Expr.reads : Expr → Bool
  | .const _ | .arg _ | .local _ => false
  | .env f => f.varies
  | .balance _ | .sload _ => true
  | .slot _ keys => Expr.readsAny keys
  | .bin _ left right => left.reads || right.reads
  | .not e => e.reads

def Expr.readsAny : List Expr → Bool
  | [] => false
  | e :: rest => e.reads || Expr.readsAny rest
end

def Expr.readsArgs (args : Option (Table Expr)) : Bool := (args.getD ∅).entries.any (·.2.reads)

def CallSpec.reads (c : CallSpec) : Bool :=
  c.target.reads || c.value.any Expr.reads || Expr.readsArgs c.args || c.gas.any Expr.reads

/-- Whether an instruction itself reads, be it to choose a branch, where nothing may be written:
there one that writes fails before it evaluates anything. -/
def Instr.reads : Instr → Bool
  | .bind _ e | .require e _ | .assert e | .ret e | .branch e _ _ => e.reads
  | .sstore _ _ | .revert _ | .emit _ _ | .selfDestruct _ => false
  | .call spec => spec.reads
  | .invoke _ args _ => Expr.readsArgs args

/-- Do what code of a scope may do there, or give up if it is not of a pure function and reads. -/
def Exec.unread {α : Type} (sc : Scope) (reads : Bool) (act : ExecM α) : ExecM α :=
  if sc.mutability = .pure ∨ reads = false then act else throw .exhausted

mutual
/-- Execute as `exec` does, but give up before an instruction that is not of a pure function and
reads. -/
def Instr.execUnread (run : Runner) (sc : Scope) : Instr → ExecM Flow
  | .branch cond yes no => do
    if ← Exec.unread sc cond.reads (Exec.condition sc cond) then Instr.execAllUnread run sc yes
    else Instr.execElseUnread run sc no
  | i => Exec.unread sc i.reads (i.exec run sc)

def Instr.execAllUnread (run : Runner) (sc : Scope) : List Instr → ExecM Flow
  | [] => pure .next
  | i :: rest => do
    Exec.boundary
    match ← i.execUnread run sc with
    | .next => Instr.execAllUnread run sc rest
    | .done v => return .done v

def Instr.execElseUnread (run : Runner) (sc : Scope) : Option (List Instr) → ExecM Flow
  | none => pure .next
  | some body => Instr.execAllUnread run sc body
end

/-- Run a body as `runBody` does, but give up before any instruction that is not of a pure
function and reads. -/
def runUnread : Nat → Runner
  | 0 => fun _ _ => throw .exhausted
  | depth + 1 => fun sc body => Instr.execAllUnread (runUnread depth) sc body

theorem Exec.unread_follows {α : Type} {sc : Scope} {reads : Bool} {act : ExecM α} {s : Site}
    {Q : α → Site → Prop} (h : Follows (.body sc) s act Q) :
    Follows (.body sc) s (unread sc reads act) Q := by
  unfold unread
  split
  · exact h
  · exact .exhaust

section

variable {run : Runner} {sc : Scope}

mutual
theorem Instr.execUnread_follows (hrun : run.Sound) (i : Instr) (s : Site) :
    Follows (.body sc) s (i.execUnread run sc) Anything := by
  cases i with
  | branch cond yes no =>
    unfold Instr.execUnread
    refine (Exec.unread_follows (Exec.condition_follows cond)).bind fun b t _ => ?_
    cases b with
    | true => exact Instr.execAllUnread_follows hrun yes t
    | false => exact Instr.execElseUnread_follows hrun no t
  | _ =>
    unfold Instr.execUnread
    exact Exec.unread_follows (Instr.exec_follows hrun _ s)

theorem Instr.execAllUnread_follows (hrun : run.Sound) (body : List Instr) (s : Site) :
    Follows (.body sc) s (Instr.execAllUnread run sc body) Anything := by
  cases body with
  | nil =>
    unfold Instr.execAllUnread
    exact .pure trivial
  | cons i rest =>
    unfold Instr.execAllUnread
    refine Exec.boundary_follows.bind fun _ t _ => ?_
    refine (Instr.execUnread_follows hrun i t).bind fun flow u _ => ?_
    cases flow with
    | next => exact Instr.execAllUnread_follows hrun rest u
    | done v => exact .pure trivial

theorem Instr.execElseUnread_follows (hrun : run.Sound) (body : Option (List Instr)) (s : Site) :
    Follows (.body sc) s (Instr.execElseUnread run sc body) Anything := by
  cases body with
  | none =>
    unfold Instr.execElseUnread
    exact .pure trivial
  | some body =>
    unfold Instr.execElseUnread
    exact Instr.execAllUnread_follows hrun body s
end

end

theorem runUnread_follows (depth : Nat) : (runUnread depth).Sound := by
  induction depth with
  | zero => exact fun _ _ _ => .exhaust
  | succ depth ih => exact fun _ body s => Instr.execAllUnread_follows ih body s

/-! ## Alike -/

/-- Environments with the same contracts, in blocks of their own. -/
structure Environment.Alike (e e' : Environment) : Prop where
  find? : ∀ a, e'.registry.find? a = e.registry.find? a
  isRetired : ∀ a, e'.registry.isRetired a = e.registry.isRetired a
  maxCallDepth : e'.maxCallDepth = e.maxCallDepth

theorem Environment.Alike.refl (e : Environment) : e.Alike e := ⟨fun _ => rfl, fun _ => rfl, rfl⟩

theorem Environment.Alike.lookup {e e' : Environment} (h : e.Alike e') (a : Address) :
    e'.registry.lookup a = e.registry.lookup a := by
  unfold Registry.lookup
  rw [h.find?]

def Scope.inside (sc : Scope) (env : Environment) : Scope := { sc with env := env }

/-- Frames with the given flags that differ in who called, and when. -/
inductive Frame.Alike (flags : FrameFlags) (f : Frame) : Frame → Prop
  | mk (ctx : Context) (flagged : f.flags = flags) (value : ctx.value = f.ctx.value)
    (self : ctx.self = f.ctx.self) : Alike flags f { f with ctx := ctx }

/-- Sites with alike frames that differ in what is persisted and what was told before. -/
inductive Site.Alike (flags : FrameFlags) (s : Site) : Site → Prop
  | mk (persisted : Layer) (trail : Trail) {f : Frame} (frame : s.frame.Alike flags f) :
    Alike flags s
      ⟨⟨⟨persisted, s.world.storage.layers⟩, s.world.locks, trail, s.world.opened⟩, f, s.locals⟩

theorem Site.Alike.refl {flags : FrameFlags} {s : Site} (h : s.frame.flags = flags) :
    s.Alike flags s :=
  .mk s.world.storage.persisted s.world.trail (.mk s.frame.ctx h rfl rfl)

namespace Site.Alike

variable {flags : FrameFlags} {s t : Site}

theorem flags_left (h : s.Alike flags t) : s.frame.flags = flags := by
  obtain ⟨persisted, trail, ctx, flagged, value, self⟩ := h
  exact flagged

theorem flags_right (h : s.Alike flags t) : t.frame.flags = flags := by
  obtain ⟨persisted, trail, ctx, flagged, value, self⟩ := h
  exact flagged

theorem meter (h : s.Alike flags t) : t.frame.meter = s.frame.meter := by
  obtain ⟨persisted, trail, ctx, flagged, value, self⟩ := h
  rfl

theorem self (h : s.Alike flags t) : t.frame.ctx.self = s.frame.ctx.self := by
  obtain ⟨persisted, trail, ctx, flagged, value, self⟩ := h
  exact self

theorem depth (h : s.Alike flags t) : t.frame.depth = s.frame.depth := by
  obtain ⟨persisted, trail, ctx, flagged, value, self⟩ := h
  rfl

theorem active (h : s.Alike flags t) : t.frame.active = s.frame.active := by
  obtain ⟨persisted, trail, ctx, flagged, value, self⟩ := h
  rfl

theorem locks (h : s.Alike flags t) : t.world.locks = s.world.locks := by
  obtain ⟨persisted, trail, frame⟩ := h
  rfl

theorem frame (h : s.Alike flags t) : s.frame.Alike flags t.frame := by
  obtain ⟨persisted, trail, frame⟩ := h
  exact frame

theorem withStorage (h : s.Alike flags t) {a b : Storage} (layers : b.layers = a.layers) :
    (s.withStorage a).Alike flags (t.withStorage b) := by
  obtain ⟨persisted, trail, frame⟩ := h
  obtain ⟨p, ls⟩ := b
  cases layers
  exact .mk p trail frame

theorem layers (h : s.Alike flags t) : t.world.storage.layers = s.world.storage.layers := by
  obtain ⟨persisted, trail, frame⟩ := h
  rfl

theorem withMeter (h : s.Alike flags t) (m : GasMeter) :
    (s.withMeter m).Alike flags (t.withMeter m) := by
  obtain ⟨persisted, trail, ctx, flagged, value, self⟩ := h
  exact .mk persisted trail (.mk ctx flagged value self)

end Site.Alike

/-- Results that are the same at sites that are alike, unless the first gave up. -/
inductive Exec.Agree {α : Type} (flags : FrameFlags) :
    EStateM.Result Fault Site α → EStateM.Result Fault Site α → Prop
  | ok (a : α) {s t : Site} (alike : s.Alike flags t) : Agree flags (.ok a s) (.ok a t)
  | error (f : Fault) {s t : Site} (alike : s.Alike flags t) : Agree flags (.error f s) (.error f t)
  | spared {s : Site} {r : EStateM.Result Fault Site α} : Agree flags (.error .exhausted s) r

open Exec

/-- Actions that do the same at sites that are alike, unless the first gives up. -/
def Oblivious {α : Type} (flags : FrameFlags) (act act' : ExecM α) : Prop :=
  ∀ s t, s.Alike flags t → Agree flags (act s) (act' t)

/-- Ways to run bodies that do the same where nothing may be written. -/
def Runner.Oblivious (run run' : Runner) : Prop :=
  ∀ flags sc env body, sc.env.Alike env → ¬ sc.MayWrite flags →
    ContractVM.Oblivious flags (run sc body) (run' (sc.inside env) body)

namespace Oblivious

variable {α β : Type} {flags : FrameFlags} {act act' els els' : ExecM α} {k k' : α → ExecM β}

theorem pure (a : α) : Oblivious flags (Pure.pure a) (Pure.pure a) := fun _ _ h => .ok a h

theorem bind (h : Oblivious flags act act') (hk : ∀ a, Oblivious flags (k a) (k' a)) :
    Oblivious flags (act >>= k) (act' >>= k') := by
  intro s t alike
  have ends := h s t alike
  generalize hr : act s = r at ends
  generalize hr' : act' t = r' at ends
  cases ends with
  | ok a alike =>
    rw [bind_ok hr, bind_ok hr']
    exact hk a _ _ alike
  | error f alike =>
    rw [bind_error hr, bind_error hr']
    exact .error f alike
  | spared =>
    rw [bind_error hr]
    exact .spared

/-- Actions that go on from what they see of the sites. -/
theorem get {k k' : Site → ExecM β} (hk : ∀ s t, s.Alike flags t → Oblivious flags (k s) (k' t)) :
    Oblivious flags (MonadState.get >>= k) (MonadState.get >>= k') :=
  fun s t alike => hk s t alike s t alike

theorem modify {f f' : Site → Site} (h : ∀ s t, s.Alike flags t → (f s).Alike flags (f' t)) :
    Oblivious flags (modify f) (modify f') := fun s t alike => .ok () (h s t alike)

theorem ite {c : Prop} [Decidable c] (h : c → Oblivious flags act act')
    (h' : ¬ c → Oblivious flags els els') :
    Oblivious flags (if c then act else els) (if c then act' else els') := by
  by_cases hc : c
  · rw [if_pos hc, if_pos hc]
    exact h hc
  · rw [if_neg hc, if_neg hc]
    exact h' hc

theorem onlyIf (b : Bool) {act act' : ExecM Unit} (h : b = true → Oblivious flags act act') :
    Oblivious flags (Exec.onlyIf b act) (Exec.onlyIf b act') := by
  cases b with
  | true => exact h rfl
  | false => exact .pure ()

theorem lift {x : Except Cause α} (hk : ∀ a, x = .ok a → Oblivious flags (k a) (k' a)) :
    Oblivious flags (Exec.lift x >>= k) (Exec.lift x >>= k') := by
  cases x with
  | ok a => exact hk a rfl
  | error c => exact fun s t alike => .error _ alike

theorem freshLocals (h : Oblivious flags act act') :
    Oblivious flags (Exec.freshLocals act) (Exec.freshLocals act') := by
  rintro s _ ⟨persisted, trail, ctx, flagged, value, self⟩
  have ends := h { s with locals := ∅ } _ (.mk persisted trail (.mk ctx flagged value self))
  unfold Exec.freshLocals
  generalize act { s with locals := ∅ } = r at ends ⊢
  generalize act' _ = r' at ends ⊢
  cases ends with
  | ok a alike =>
    obtain ⟨persisted, trail, ctx, flagged, value, self⟩ := alike
    exact .ok a (.mk persisted trail (.mk ctx flagged value self))
  | error f alike =>
    obtain ⟨persisted, trail, ctx, flagged, value, self⟩ := alike
    exact .error f (.mk persisted trail (.mk ctx flagged value self))
  | spared => exact .spared

theorem releasing (tokens : List LockToken) (h : Oblivious flags act act') :
    Oblivious flags (Exec.releasing tokens act) (Exec.releasing tokens act') := by
  intro s t alike
  have ends := h s t alike
  unfold Exec.releasing
  generalize act s = r at ends ⊢
  generalize act' t = r' at ends ⊢
  cases ends with
  | ok a alike =>
    obtain ⟨persisted, trail, ctx, flagged, value, self⟩ := alike
    exact .ok a (.mk persisted _ (.mk ctx flagged value self))
  | error f alike =>
    obtain ⟨persisted, trail, ctx, flagged, value, self⟩ := alike
    exact .error f (.mk persisted _ (.mk ctx flagged value self))
  | spared => exact .spared

end Oblivious

/-! ## Elementary actions -/

namespace Exec

variable {flags : FrameFlags} {sc : Scope} {env : Environment}

theorem fail_oblivious {α : Type} (c : Cause) :
    Oblivious flags (fail c : ExecM α) (fail c) := fun _ _ alike => .error _ alike

theorem lift_oblivious {α : Type} (r : Except Cause α) : Oblivious flags (lift r) (lift r) := by
  cases r with
  | ok a => exact .pure a
  | error c => exact fail_oblivious c

theorem note_oblivious (step step' : Step) : Oblivious flags (note step) (note step') := by
  rintro s _ ⟨persisted, trail, ctx, flagged, value, self⟩
  exact .ok () (.mk persisted _ (.mk ctx flagged value self))

theorem boundary_oblivious : Oblivious flags boundary boundary := by
  rintro s _ ⟨persisted, trail, ctx, flagged, value, self⟩
  exact .ok () (.mk persisted _ (.mk ctx flagged value self))

theorem setLocal_oblivious (name : String) (v : Value) :
    Oblivious flags (setLocal name v) (setLocal name v) := by
  rintro s _ ⟨persisted, trail, ctx, flagged, value, self⟩
  exact .ok () (.mk persisted trail (.mk ctx flagged value self))

theorem spend_oblivious (n : Int) : Oblivious flags (spend n) (spend n) := by
  intro s t alike
  cases hm : s.frame.meter.charge n with
  | ok m =>
    rw [spend_eq_ok hm, spend_eq_ok (s := t) (alike.meter ▸ hm)]
    exact .ok () (alike.withMeter m)
  | error c =>
    rw [spend_eq_error hm, spend_eq_error (s := t) (alike.meter ▸ hm)]
    exact .error _ alike

/-- A transfer that moves nothing looks at no balance. -/
theorem transfer_oblivious {n : Int} (hn : n ≤ 0) (a b a' b' : Address) :
    Oblivious flags (transfer a b n) (transfer a' b' n) := by
  intro s t alike
  have hnothing (u : Site) (c d : Address) : transfer c d n u =
      if n < 0 then .error (.raised (.negativeTransfer n) false) u else .ok () u := by
    by_cases hneg : n < 0
    · rw [if_pos hneg]
      refine transfer_eq_error ?_
      unfold Storage.transfer
      rw [if_pos hneg]
    · rw [if_neg hneg]
      refine transfer_eq_ok ?_
      unfold Storage.transfer
      rw [if_neg hneg, if_pos (by omega)]
  rw [hnothing, hnothing]
  split
  · exact .error _ alike
  · exact .ok () alike

theorem move_oblivious (next : Phase) : Oblivious flags (move next) (move next) := by
  rintro s _ ⟨persisted, trail, ctx, flagged, value, self⟩
  unfold move Frame.transition
  by_cases h : next ∈ s.frame.phase.following
  · rw [if_pos h, if_pos h]
    exact .ok () (.mk persisted trail (.mk ctx flagged value self))
  · rw [if_neg h, if_neg h]
    exact .error _ (.mk persisted trail (.mk ctx flagged value self))

theorem lock_oblivious (a : Address) : Oblivious flags (lock a) (lock a) := by
  intro s t alike
  by_cases h : a ∈ s.world.locks
  · rw [lock_eq_error h, lock_eq_error (s := t) (alike.locks ▸ h)]
    exact .error _ alike
  · rw [lock_eq_ok h, lock_eq_ok (s := t) (alike.locks ▸ h)]
    obtain ⟨persisted, trail, ctx, flagged, value, self⟩ := alike
    exact .ok _ (.mk persisted _ (.mk ctx flagged value self))

theorem holdLock_oblivious (a : Address) : Oblivious flags (holdLock a) (holdLock a) := by
  refine (lock_oblivious a).bind fun token => .modify ?_
  rintro s _ ⟨persisted, trail, ctx, flagged, value, self⟩
  exact .mk persisted trail (.mk ctx flagged value self)

/-- The check for writing fails, whatever it is for. -/
theorem ensureWritable_fails (h : ¬ sc.MayWrite flags) (what : String) :
    ∃ c, ∀ (e : Environment) (u : Site), u.frame.flags = flags →
      ensureWritable (sc.inside e) what u = .error (.raised c false) u := by
  by_cases static : flags.isStatic = true
  · refine ⟨.staticFrame what, fun e u hu => ?_⟩
    unfold ensureWritable
    rw [hu, if_pos static]
  · have reading := (Scope.not_mayWrite_iff.1 h).resolve_left static
    refine ⟨.writeForbidden what sc.mutability, fun e u hu => ?_⟩
    have hsame : (sc.inside e).mutability = sc.mutability := rfl
    unfold ensureWritable
    rw [hu, if_neg static, hsame]
    cases hm : sc.mutability with
    | view | pure => rfl
    | mutating | payable =>
      rw [hm] at reading
      exact absurd reading (by decide)

theorem ensureWritable_oblivious {α : Type} (h : ¬ sc.MayWrite flags) (what : String)
    (k k' : Unit → ExecM α) :
    Oblivious flags (ensureWritable sc what >>= k) (ensureWritable (sc.inside env) what >>= k') := by
  intro s t alike
  obtain ⟨c, hfails⟩ := ensureWritable_fails h what
  have hfirst : ensureWritable sc what s = .error (.raised c false) s :=
    hfails sc.env s alike.flags_left
  rw [bind_error hfirst, bind_error (hfails env t alike.flags_right)]
  exact .error _ alike

theorem setNamed_oblivious (name : Option String) (v : Value) :
    Oblivious flags (setNamed name v) (setNamed name v) := by
  unfold setNamed
  split
  · exact .ite (fun _ => .pure ()) fun _ => setLocal_oblivious _ v
  · exact .pure ()

theorem setResult_oblivious (name : Option String) (v : Option Value) :
    Oblivious flags (setResult name v) (setResult name v) := by
  unfold setResult
  split
  · exact setLocal_oblivious _ _
  · exact .pure ()

end Exec

/-! ## Operands -/

/-- Sights that differ in who called, when, and what is stored. -/
structure Sight.Alike (s t : Sight) : Prop where
  value : t.ctx.value = s.ctx.value
  self : t.ctx.self = s.ctx.self
  mutability : t.mutability = s.mutability
  args : t.args = s.args
  locals : t.locals = s.locals

section Evaluation

variable {s t : Sight}

theorem Eval.ensureReadable_pure (h : s.mutability = .pure) (what : String) :
    ensureReadable s what = .error (.readForbidden what) := by
  unfold ensureReadable
  rw [h]

/-- Where reading is forbidden, it does not matter what would be read. -/
theorem Eval.unreadable {α : Type} (h : s.Alike t) (shy : s.mutability = .pure) (what : String)
    (k k' : Unit → EvalM α) :
    (Eval.lift (ensureReadable s what) >>= k) = (Eval.lift (ensureReadable t what) >>= k') := by
  rw [ensureReadable_pure shy, ensureReadable_pure (h.mutability.trans shy)]
  rfl

theorem Eval.field_congr (h : s.Alike t) {f : EnvField} (hf : f.varies = false) (left : Int) :
    field s left f = field t left f := by
  cases f with
  | value => exact congrArg Value.int h.value.symm
  | self => exact congrArg Value.text h.self.symm
  | gasLeft => rfl
  | sender | origin | timestamp | blockNumber => cases hf

mutual
theorem Expr.eval_congr (h : s.Alike t) (e : Expr)
    (shy : s.mutability = .pure ∨ e.reads = false) : e.eval s = e.eval t := by
  cases e with
  | const v => rfl
  | arg name =>
    unfold Expr.eval
    rw [h.args]
  | «local» name =>
    unfold Expr.eval
    rw [h.locals]
  | env f =>
    unfold Expr.eval
    rcases shy with shy | shy
    · exact Eval.unreadable h shy _ _ _
    · have hreadable : Eval.ensureReadable t f.name = Eval.ensureReadable s f.name := by
        unfold Eval.ensureReadable
        rw [h.mutability]
      rw [hreadable]
      simp only [Eval.field_congr h shy]
  | balance of =>
    unfold Expr.eval
    exact Eval.unreadable h (shy.resolve_right Bool.noConfusion) _ _ _
  | slot base keys =>
    unfold Expr.eval
    rw [Expr.evalAll_congr h keys shy]
  | sload key =>
    unfold Expr.eval
    exact Eval.unreadable h (shy.resolve_right Bool.noConfusion) _ _ _
  | bin op left right =>
    have hshy := shy.imp_right Bool.or_eq_false_iff.1
    unfold Expr.eval
    rw [Expr.eval_congr h left (hshy.imp_right And.left),
      Expr.eval_congr h right (hshy.imp_right And.right)]
  | not e =>
    unfold Expr.eval
    rw [Expr.eval_congr h e shy]

theorem Expr.evalAll_congr (h : s.Alike t) (es : List Expr)
    (shy : s.mutability = .pure ∨ Expr.readsAny es = false) :
    Expr.evalAll s es = Expr.evalAll t es := by
  cases es with
  | nil => rfl
  | cons e rest =>
    have hshy := shy.imp_right Bool.or_eq_false_iff.1
    unfold Expr.evalAll
    rw [Expr.eval_congr h e (hshy.imp_right And.left),
      Expr.evalAll_congr h rest (hshy.imp_right And.right)]
end

theorem Expr.evalArgs_congr (h : s.Alike t) (args : List (String × Expr)) (done : Args)
    (shy : s.mutability = .pure ∨ args.any (·.2.reads) = false) :
    Expr.evalArgs s args done = Expr.evalArgs t args done := by
  induction args generalizing done with
  | nil => rfl
  | cons a rest ih =>
    have hshy := shy.imp_right fun h => Bool.or_eq_false_iff.1 (List.any_cons.symm.trans h)
    unfold Expr.evalArgs
    rw [Expr.eval_congr h a.2 (hshy.imp_right And.left)]
    simp only [ih _ (hshy.imp_right And.right)]

end Evaluation

namespace Exec

variable {flags : FrameFlags} {sc : Scope} {env : Environment}

theorem evaluating_oblivious {α : Type} {act : Sight → EvalM α}
    (h : ∀ s t : Sight, s.mutability = sc.mutability → s.Alike t → act s = act t) :
    Oblivious flags (evaluating sc act) (evaluating (sc.inside env) act) := by
  intro s t alike
  have hact : act (sight sc s) = act (sight (sc.inside env) t) := by
    obtain ⟨persisted, trail, ctx, flagged, value, self⟩ := alike
    exact h _ _ rfl ⟨value, self, rfl, rfl, rfl⟩
  unfold evaluating
  rw [← hact, alike.meter]
  cases act (sight sc s) s.frame.meter with
  | ok a m => exact .ok a (alike.withMeter m)
  | error c m => exact .error _ (alike.withMeter m)

theorem value_oblivious {e : Expr} (shy : sc.mutability = .pure ∨ e.reads = false) :
    Oblivious flags (value sc e) (value (sc.inside env) e) :=
  evaluating_oblivious fun _ _ hm h => e.eval_congr h (hm ▸ shy)

theorem condition_oblivious {e : Expr} (shy : sc.mutability = .pure ∨ e.reads = false) :
    Oblivious flags (condition sc e) (condition (sc.inside env) e) :=
  (value_oblivious shy).bind fun _ => lift_oblivious _

theorem arguments_oblivious {args : Option (Table Expr)}
    (shy : sc.mutability = .pure ∨ Expr.readsArgs args = false) :
    Oblivious flags (arguments sc args) (arguments (sc.inside env) args) :=
  evaluating_oblivious fun _ _ hm h => Expr.evalArgs_congr h _ _ (hm ▸ shy)

theorem optionalUint_oblivious {e : Option Expr}
    (shy : sc.mutability = .pure ∨ e.any Expr.reads = false) :
    Oblivious flags (optionalUint sc e) (optionalUint (sc.inside env) e) := by
  cases e with
  | none => exact .pure none
  | some e => exact (value_oblivious shy).bind fun _ => .lift fun _ _ => .pure _

end Exec

end ContractVM
