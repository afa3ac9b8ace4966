/-
Code that may not write and reads nothing runs alike.

There is one lemma for every part of a call: the frame of the callee binds and executes alike
(`attempt_oblivious`), ends alike and comes back to its caller alike (`close_agree`), and what
the caller makes of it is alike.  What a frame is opened for from where nothing may be written
may write nothing either (`request_reads`).  `runUnread_oblivious` ties the knot by induction on
the nesting.
-/
import ContractVM.Proofs.Exec.Oblivious

namespace ContractVM

open Exec

/-! ## Frames -/

/-- Nothing may be written by what a request comes to, in a frame with the given flags. -/
def Request.Reads (r : Request) (env : Environment) (flags : FrameFlags) : Prop :=
  ∀ c b, env.registry.find? r.codeAddress = some c → c.bind r = .ok b →
    (r.transfers = true → r.value ≤ 0) ∧ ∀ sc ∈ b.scopes env c, ¬ sc.MayWrite flags

namespace Exec

variable {flags : FrameFlags} {run run' : Runner} {env env' : Environment} {c : Contract}

theorem constructAll_oblivious (h : run.Oblivious run') (henv : env.Alike env')
    (inits : List (Owned ConstructorDef × Args))
    (reads : ∀ sc ∈ (Bound.construct inits).scopes env c, ¬ sc.MayWrite flags) :
    Oblivious flags (constructAll run env c inits) (constructAll run' env' c inits) := by
  induction inits with
  | nil => exact .pure ()
  | cons i rest ih =>
    have body := h flags ⟨env, c, i.1.owner, .payable, i.2⟩ env' i.1.item.body henv
      (reads _ List.mem_cons_self)
    exact (Oblivious.freshLocals body).bind fun _ =>
      ih fun sc hsc => reads sc (List.mem_cons_of_mem _ hsc)

theorem runEntry_oblivious (h : run.Oblivious run') (henv : env.Alike env') (b : Bound)
    (reads : ∀ sc ∈ b.scopes env c, ¬ sc.MayWrite flags) :
    Oblivious flags (runEntry run env c b) (runEntry run' env' c b) := by
  cases b with
  | construct inits =>
    exact (spend_oblivious _).bind fun _ =>
      (constructAll_oblivious h henv inits reads).bind fun _ => .pure none
  | fallback fb =>
    have body := h flags _ env' fb.item.body henv (reads _ List.mem_cons_self)
    exact (Oblivious.freshLocals body).bind fun _ => .pure none
  | function fn args =>
    have body := h flags _ env' fn.item.body henv (reads _ List.mem_cons_self)
    exact (Oblivious.freshLocals body).bind fun flow => lift_oblivious _

/-- A frame does the same whoever its request is from, if it may write nothing. -/
theorem attempt_oblivious (h : run.Oblivious run') (henv : env.Alike env') {r : Request}
    (reads : r.Reads env flags) (caller origin : Address) :
    Oblivious flags (attempt run env r)
      (attempt run' env' { r with caller := caller, origin := origin }) := by
  refine (move_oblivious .binding).bind fun _ => ?_
  show Oblivious flags (lift (env.registry.lookup r.codeAddress) >>= _)
    (lift (env'.registry.lookup r.codeAddress) >>= _)
  rw [henv.lookup]
  refine .lift fun c found => ?_
  refine Oblivious.lift (x := c.bind r) fun b bound => ?_
  obtain ⟨free, scopes⟩ := reads c b (Registry.lookup_eq_ok.1 found) bound
  refine (Oblivious.onlyIf r.transfers fun paid => transfer_oblivious (free paid) _ _ _ _).bind fun _ => ?_
  refine (Oblivious.onlyIf (c.takesLock r) fun _ => holdLock_oblivious _).bind fun _ => ?_
  refine (move_oblivious .executing).bind fun _ => ?_
  exact (runEntry_oblivious h henv b scopes).bind fun v => (move_oblivious .committing).bind fun _ =>
    .pure v

end Exec

/-! ## The end of a frame -/

section Ends

variable {flags inner : FrameFlags} {s t u u' v : Site} {f f' g : Frame}

theorem Frame.Alike.transition (h : f.Alike flags f') {next : Phase}
    (moved : f.transition next = .ok g) : ∃ g', f'.transition next = .ok g' ∧ g.Alike flags g' := by
  obtain ⟨ctx, flagged, value, self⟩ := h
  unfold Frame.transition at moved
  split at moved
  · next hn =>
    cases moved
    unfold Frame.transition
    exact ⟨_, if_pos hn, .mk ctx flagged value self⟩
  · cases moved

/-- Layers are merged and dropped alike, whatever is below them. -/
theorem Storage.commit_congr {a b a' : Storage} {d : Option Delta} (layers : a'.layers = a.layers)
    (h : a.commit = .ok (d, b)) : ∃ d' b', a'.commit = .ok (d', b') ∧ b'.layers = b.layers := by
  unfold Storage.commit at h ⊢
  rw [layers]
  split at h
  · cases h
  · cases h
    exact ⟨_, _, rfl, rfl⟩
  · cases h
    exact ⟨_, _, rfl, rfl⟩

theorem Storage.rollback_congr {a b a' : Storage} (layers : a'.layers = a.layers)
    (h : a.rollback = .ok b) : ∃ b', a'.rollback = .ok b' ∧ b'.layers = b.layers := by
  unfold Storage.rollback at h ⊢
  rw [layers]
  split at h
  · cases h
  · cases h
    exact ⟨_, rfl, rfl⟩

theorem Site.Alike.ended (h : u.Alike inner u') (frame : f.Alike inner f') {a a' : Storage}
    (layers : a'.layers = a.layers) (step step' : Step) :
    (Site.note { u.withStorage a with frame := f } step).Alike inner
      (Site.note { u'.withStorage a' with frame := f' } step') := by
  obtain ⟨persisted, trail, -⟩ := h
  obtain ⟨p', ls'⟩ := a'
  cases layers
  exact .mk p' _ frame

theorem Site.Alike.commitTo {parent parent' q : Frame} (h : u.Alike inner u')
    (parents : parent.Alike flags parent') (ended : u.commitTo parent = .ok (v, q)) :
    ∃ v' q', u'.commitTo parent' = .ok (v', q') ∧ v.Alike inner v' ∧ q.Alike flags q' := by
  obtain ⟨d, a, f, hcommit, hdone, rfl, rfl⟩ := Site.commitTo_eq ended
  obtain ⟨d', a', hcommit', layers⟩ := Storage.commit_congr h.layers hcommit
  have emptied : ({ u.frame with terminations := [], pending := [] } : Frame).Alike inner
      { u'.frame with terminations := [], pending := [] } := by
    obtain ⟨persisted, trail, ctx, flagged, value, self⟩ := h
    exact .mk ctx flagged value self
  obtain ⟨f', hdone', alike⟩ := emptied.transition hdone
  refine ⟨_, _, Site.commitTo_of hcommit' hdone', h.ended alike layers _ _, ?_⟩
  obtain ⟨persisted, trail, ctx, flagged, value, self⟩ := h
  obtain ⟨ctx', flagged', value', self'⟩ := parents
  exact .mk ctx' flagged' value' self'

theorem Site.Alike.revert (h : u.Alike inner u') {c : Cause} {p : Bool} {out : Outcome}
    (ended : u.revert c p = .ok (out, v)) :
    ∃ v', u'.revert c p = .ok (out, v') ∧ v.Alike inner v' := by
  obtain ⟨f, g, a, reverting, hrollback, hdone, rfl, rfl⟩ := Site.revert_eq ended
  obtain ⟨a', hrollback', layers⟩ := Storage.rollback_congr h.layers hrollback
  obtain ⟨f', reverting', alike⟩ := h.frame.transition reverting
  obtain ⟨ctx, flagged, value, self⟩ := alike
  have failed : ({ f.discard with meter := f.meter.fail (c.kind.policy p) } : Frame).Alike inner
      { f.discard with meter := f.meter.fail (c.kind.policy p), ctx := ctx } :=
    .mk ctx flagged value self
  obtain ⟨g', hdone', alike⟩ := failed.transition hdone
  have hmeter : g'.meter = g.meter := by
    obtain ⟨ctx, -⟩ := alike
    rfl
  rw [← hmeter]
  exact ⟨_, Site.revert_of reverting' hrollback' hdone', h.ended alike layers _ _⟩

theorem Site.Alike.leave {parent parent' : Frame} (h : s.Alike flags t) (ends : u.Alike inner u')
    (parents : parent.Alike flags parent') : (s.leave u parent).Alike flags (t.leave u' parent') := by
  obtain ⟨-, -, ctx, flagged, value, self⟩ := h
  obtain ⟨persisted, -, _, _, _, _⟩ := ends
  obtain ⟨ctx', flagged', value', self'⟩ := parents
  unfold Site.leave Frame.release
  refine .mk persisted _ ?_
  show Frame.Alike flags (if parent.active = some u.frame.id then _ else _)
    (if parent.active = some u.frame.id then _ else _)
  split
  · exact .mk ctx' flagged' value' self'
  · exact .mk ctx' flagged' value' self'

/-- A frame whose code has ended alike comes back to its caller alike. -/
theorem Exec.close_agree {env : Environment} {r : Request}
    {res res' : EStateM.Result Fault Site (Option Value)} {parent parent' : Frame}
    (lives : Lives env r v res) (opened : v.world.storage.layers ≠ []) (ends : Agree inner res res')
    (h : s.Alike flags t) (parents : parent.Alike flags parent') :
    Agree flags (close s parent res) (close t parent' res') := by
  cases ends with
  | @ok v u u' alike =>
    obtain ⟨w, q, ended⟩ := commitTo_eq_ok parent (lives.1.above opened).layers_ne lives.2
    obtain ⟨w', q', ended', alike', parents'⟩ := alike.commitTo parents ended
    simp only [close, ended, ended', alike'.meter]
    exact .ok _ (h.leave alike' parents')
  | @error f u u' alike =>
    have hl := (lives.1.above opened).layers_ne
    by_cases hf : ∃ c p, f = .raised c p
    · obtain ⟨c, p, rfl⟩ := hf
      obtain ⟨left, w, ended⟩ := revert_eq_ok c p hl lives.2
      obtain ⟨w', ended', alike'⟩ := alike.revert ended
      simp only [close, settle_raised ended, settle_raised ended']
      exact .ok _ (h.leave alike' parents)
    · have foreign : ∀ c p, f ≠ .raised c p := fun c p h => hf ⟨c, p, h⟩
      obtain ⟨a, hrollback⟩ := Storage.rollback_eq_ok_of_ne hl
      obtain ⟨a', hrollback', layers⟩ := Storage.rollback_congr alike.layers hrollback
      simp only [close, settle_foreign foreign hrollback, settle_foreign foreign hrollback']
      exact .error f (h.leave (alike.withStorage layers) parents)
  | @spared u res' =>
    obtain ⟨a, hrollback⟩ := Storage.rollback_eq_ok_of_ne (lives.1.above opened).layers_ne
    have foreign : ∀ c p, Fault.exhausted ≠ .raised c p := nofun
    simp only [close, settle_foreign foreign hrollback]
    exact .spared

end Ends

/-! ## Calls and invocations -/

namespace Exec

variable {flags : FrameFlags} {sc : Scope} {env env' : Environment} {run run' : Runner}

/-- The frame of a callee, and the site where it begins. -/
def calleeAt (s : Site) (env : Environment) (r : Request) (meter : GasMeter) : Site :=
  let child := Frame.start s.world.opened (some s.frame) (r.context env.block) r.flags meter
  ⟨s.world.enter child, child, ∅⟩

theorem openFrame_idle {r : Request} {meter : GasMeter} {s : Site}
    (budget : GasMeter.ofBudget? r.gas = some meter) (idle : s.frame.active = none) :
    openFrame run env r s = close s { s.frame with active := some s.world.opened }
      (attempt run env r (calleeAt s env r meter)) := by
  refine openFrame_adopted budget rfl ?_
  unfold Frame.adopt
  rw [if_neg fun h => h rfl, idle]
  rfl

theorem openFrame_oblivious (hrun : run.Sound) (h : run.Oblivious run') (henv : env.Alike env')
    {r : Request} (reads : r.Reads env r.flags) (caller origin : Address) :
    Oblivious flags (openFrame run env r)
      (openFrame run' env' { r with caller := caller, origin := origin }) := by
  intro s t alike
  obtain ⟨r', hr'⟩ : ∃ r', r' = { r with caller := caller, origin := origin } := ⟨_, rfl⟩
  have hgas : r'.gas = r.gas := by rw [hr']
  rw [← hr']
  cases budget : GasMeter.ofBudget? r.gas with
  | none =>
    rw [openFrame_overdrawn budget, openFrame_overdrawn (r := r') (hgas ▸ budget)]
    exact .error _ alike
  | some meter =>
    have budget' : GasMeter.ofBudget? r'.gas = some meter := hgas ▸ budget
    by_cases idle : s.frame.active = none
    · have callees : (calleeAt s env r meter).Alike r.flags (calleeAt t env' r' meter) := by
        obtain ⟨persisted, trail, ctx, flagged, value, self⟩ := alike
        subst hr'
        exact .mk persisted _ (.mk _ rfl rfl rfl)
      have ends := attempt_oblivious h henv reads caller origin _ _ callees
      rw [← hr'] at ends
      have parents : ({ s.frame with active := some s.world.opened } : Frame).Alike flags
          { t.frame with active := some t.world.opened } := by
        obtain ⟨persisted, trail, ctx, flagged, value, self⟩ := alike
        exact .mk ctx flagged value self
      rw [openFrame_idle budget idle, openFrame_idle budget' (alike.active.trans idle)]
      exact close_agree (attempt_lives hrun env r rfl) (List.cons_ne_nil _ _) ends alike parents
    · rw [openFrame_busy budget idle, openFrame_busy (r := r') budget' (alike.active ▸ idle)]
      exact .error _ alike

/-- What a call from where nothing may be written comes to may write nothing either. -/
theorem request_reads (h : ¬ sc.MayWrite flags) {f : Frame} (hf : f.flags = flags) (spec : CallSpec)
    (target : Address) (args : Args) {amount : Int} (free : amount ≤ 0) (gas : Int) :
    (request sc spec f target args amount gas).Reads sc.env
      (request sc spec f target args amount gas).flags := by
  have static : (request sc spec f target args amount gas).flags.isStatic = true := by
    show (f.flags.isStatic || decide (sc.mutability.rank < 2)) = true
    rw [hf, Bool.or_eq_true, decide_eq_true_iff]
    exact Scope.not_mayWrite_iff.1 h
  intro c b _ _
  refine ⟨fun transfers => ?_, fun sc' _ may => ?_⟩
  · have direct : decide (spec.kind = .delegate) = false := by
      simpa [request] using transfers
    show (if decide (spec.kind = .delegate) then f.ctx.value else amount) ≤ 0
    rw [direct]
    exact free
  · exact absurd (static.symm.trans may.1) Bool.noConfusion

theorem callFailed_oblivious (spec : CallSpec) (c : Cause) (propagated : Bool) :
    Oblivious flags (callFailed spec c propagated) (callFailed spec c propagated) := by
  unfold callFailed
  refine .ite (fun _ => ?_) fun _ s t alike => .error _ alike
  exact (setNamed_oblivious _ _).bind fun _ => .get fun _ _ _ => note_oblivious _ _

theorem sendValue_oblivious (spec : CallSpec) (target : Address) {amount : Int} (free : amount ≤ 0) :
    Oblivious flags (sendValue spec target amount) (sendValue spec target amount) := by
  intro s t alike
  have ends := transfer_oblivious free s.frame.ctx.self target t.frame.ctx.self target s t alike
  unfold sendValue
  generalize transfer s.frame.ctx.self target amount s = r at ends ⊢
  generalize transfer t.frame.ctx.self target amount t = r' at ends ⊢
  cases ends with
  | ok _ alike => exact setNamed_oblivious _ _ _ _ alike
  | error f alike =>
    cases f with
    | raised c p => exact callFailed_oblivious spec c p _ _ alike
    | _ => exact .error _ alike
  | spared => exact .spared

/-- Calls of one target from frames that are alike differ in who sends them only. -/
theorem request_alike {f f' : Frame} (h : f.Alike flags f') (sc : Scope) (env' : Environment)
    (spec : CallSpec) (target : Address) (args : Args) (amount gas : Int) :
    ∃ caller origin, request (sc.inside env') spec f' target args amount gas =
      { request sc spec f target args amount gas with caller := caller, origin := origin } := by
  obtain ⟨ctx, flagged, value, self⟩ := h
  refine ⟨if decide (spec.kind = .delegate) then ctx.sender else ctx.self, ctx.origin, ?_⟩
  unfold request
  simp only [value, self]
  rfl

theorem callContract_oblivious (hrun : run.Sound) (h : run.Oblivious run')
    (henv : sc.env.Alike env') (reading : ¬ sc.MayWrite flags) (spec : CallSpec) (callee : Contract)
    (target : Address) {amount : Int} (free : amount ≤ 0) (args : Args) (requested : Option Int) :
    Oblivious flags (callContract run sc spec callee target amount args requested)
      (callContract run' (sc.inside env') spec callee target amount args requested) := by
  unfold callContract
  refine .get fun s t alike => .get fun s' t' alike' => ?_
  simp only [alike.self, alike.meter, alike'.locks]
  refine .ite (fun _ => callFailed_oblivious _ _ _) fun _ => (spend_oblivious _).bind fun _ => ?_
  obtain ⟨caller, origin, hrequest⟩ := request_alike alike.frame sc env' spec target args amount
    (forwarded s.frame.meter.left requested + Fee.stipend amount)
  have reads := request_reads reading alike.flags_left spec target args free
    (forwarded s.frame.meter.left requested + Fee.stipend amount)
  refine Oblivious.bind (hrequest ▸ openFrame_oblivious hrun h henv reads caller origin) fun out => ?_
  cases out with
  | committed v left =>
    refine (Oblivious.modify fun u u' alike => ?_).bind fun _ =>
      (setNamed_oblivious _ _).bind fun _ => setResult_oblivious _ _
    rw [alike.meter]
    exact alike.withMeter _
  | reverted c left =>
    refine (Oblivious.modify fun u u' alike => ?_).bind fun _ => callFailed_oblivious spec c true
    rw [alike.meter]
    exact alike.withMeter _

theorem call_oblivious (hrun : run.Sound) (h : run.Oblivious run') (henv : sc.env.Alike env')
    (reading : ¬ sc.MayWrite flags) {spec : CallSpec}
    (shy : sc.mutability = .pure ∨ spec.reads = false) :
    Oblivious flags (call run sc spec) (call run' (sc.inside env') spec) := by
  have hshy := shy.imp_right fun h => by simpa [CallSpec.reads] using h
  unfold call
  refine .get fun s t alike => ?_
  rw [alike.flags_left, alike.flags_right]
  refine (Oblivious.onlyIf _ fun _ => fail_oblivious _).bind fun _ => ?_
  refine (Oblivious.onlyIf _ fun _ => fail_oblivious _).bind fun _ => ?_
  refine (value_oblivious (hshy.imp_right fun h => h.1.1.1)).bind fun v => .lift fun target _ => ?_
  refine (optionalUint_oblivious (hshy.imp_right fun h => h.1.1.2)).bind fun given => ?_
  by_cases hpos : 0 < given.getD 0
  · simp only [hpos, decide_true]
    exact ensureWritable_oblivious reading _ _ _
  · simp only [hpos, decide_false]
    refine (Oblivious.pure ()).bind fun _ => ?_
    refine (arguments_oblivious (hshy.imp_right fun h => h.1.2)).bind fun args => ?_
    refine (optionalUint_oblivious (hshy.imp_right And.right)).bind fun requested => ?_
    refine (spend_oblivious _).bind fun _ => .get fun u u' alike => ?_
    have hdepth : (sc.inside env').env.maxCallDepth = sc.env.maxCallDepth := henv.maxCallDepth
    have hfind : (sc.inside env').env.registry.find? target = sc.env.registry.find? target :=
      henv.find? target
    have hretired : (sc.inside env').env.registry.isRetired target =
        sc.env.registry.isRetired target := henv.isRetired target
    rw [hdepth, hfind, hretired, alike.depth]
    refine .ite (fun _ => callFailed_oblivious _ _ _) fun _ => ?_
    cases sc.env.registry.find? target with
    | some callee =>
      exact callContract_oblivious hrun h henv reading spec callee target (Int.not_lt.1 hpos) args
        requested
    | none =>
      exact .ite (fun _ => sendValue_oblivious spec target (Int.not_lt.1 hpos)) fun _ =>
        callFailed_oblivious _ _ _

theorem invocationLock_oblivious (f : FunctionDef) :
    Oblivious flags (invocationLock f) (invocationLock f) := by
  intro s t alike
  unfold invocationLock
  split
  · rw [alike.self]
    exact (lock_oblivious s.frame.ctx.self).bind (fun token => .pure [token]) s t alike
  · exact .ok [] alike

theorem invoke_oblivious (h : run.Oblivious run') (henv : sc.env.Alike env')
    (reading : ¬ sc.MayWrite flags) (fn : String) {args : Option (Table Expr)}
    (shy : sc.mutability = .pure ∨ Expr.readsArgs args = false) (result : Option String) :
    Oblivious flags (invoke run sc fn args result) (invoke run' (sc.inside env') fn args result) := by
  unfold invoke
  refine Oblivious.lift (x := invocable sc fn) fun f _ => (spend_oblivious _).bind fun _ => ?_
  refine .get fun _ _ _ => (note_oblivious _ _).bind fun _ => ?_
  refine (arguments_oblivious shy).bind fun given => .lift fun bound _ => ?_
  refine (invocationLock_oblivious f.item).bind fun tokens => ?_
  have inner : ¬ (sc.inner f bound).MayWrite flags := fun may => reading may.of_inner
  have body := h flags (sc.inner f bound) env' f.item.body henv inner
  refine (Oblivious.releasing tokens ?_).bind fun v => setResult_oblivious result v
  exact (Oblivious.freshLocals body).bind fun flow => lift_oblivious _

end Exec

/-! ## Instructions -/

open Exec

variable {flags : FrameFlags} {sc : Scope} {env' : Environment} {run run' : Runner}

/-- Unless it gives up, code of a pure function does what it does, or code that does not read. -/
theorem Exec.unread_oblivious {α : Type} {reads : Bool} {act act' : ExecM α}
    (h : sc.mutability = .pure ∨ reads = false → Oblivious flags act act') :
    Oblivious flags (unread sc reads act) act' := by
  unfold unread
  split
  · next shy => exact h shy
  · exact fun _ _ _ => .spared

mutual
theorem Instr.execUnread_oblivious (hrun : run.Sound) (h : run.Oblivious run')
    (henv : sc.env.Alike env') (reading : ¬ sc.MayWrite flags) (i : Instr) :
    Oblivious flags (i.execUnread run sc) (i.exec run' (sc.inside env')) := by
  cases i with
  | bind name e =>
    unfold Instr.execUnread Instr.exec
    exact unread_oblivious fun shy => (value_oblivious shy).bind fun v =>
      (setLocal_oblivious name v).bind fun _ => .pure _
  | sstore key e =>
    unfold Instr.execUnread Instr.exec
    exact unread_oblivious fun _ => ensureWritable_oblivious reading _ _ _
  | require cond reason | assert cond =>
    unfold Instr.execUnread Instr.exec
    exact unread_oblivious fun shy => (condition_oblivious shy).bind fun b =>
      .ite (fun _ => .pure _) fun _ => fail_oblivious _
  | revert reason =>
    unfold Instr.execUnread Instr.exec
    exact unread_oblivious fun _ => fail_oblivious _
  | emit event args =>
    unfold Instr.execUnread Instr.exec Exec.emit
    exact unread_oblivious fun _ =>
      Oblivious.bind (ensureWritable_oblivious reading _ _ _) fun _ => .pure _
  | call spec =>
    unfold Instr.execUnread Instr.exec
    exact unread_oblivious fun shy =>
      (call_oblivious hrun h henv reading shy).bind fun _ => .pure _
  | invoke fn args result =>
    unfold Instr.execUnread Instr.exec
    exact unread_oblivious fun shy =>
      (invoke_oblivious h henv reading fn shy result).bind fun _ => .pure _
  | branch cond yes no =>
    unfold Instr.execUnread Instr.exec
    exact (unread_oblivious condition_oblivious).bind fun b => .ite
      (fun _ => Instr.execAllUnread_oblivious hrun h henv reading yes)
      fun _ => Instr.execElseUnread_oblivious hrun h henv reading no
  | ret e =>
    unfold Instr.execUnread Instr.exec
    exact unread_oblivious fun shy => (value_oblivious shy).bind fun v => .pure _
  | selfDestruct beneficiary =>
    unfold Instr.execUnread Instr.exec Exec.selfDestruct
    exact unread_oblivious fun _ =>
      Oblivious.bind (ensureWritable_oblivious reading _ _ _) fun _ => .pure _

theorem Instr.execAllUnread_oblivious (hrun : run.Sound) (h : run.Oblivious run')
    (henv : sc.env.Alike env') (reading : ¬ sc.MayWrite flags) (body : List Instr) :
    Oblivious flags (Instr.execAllUnread run sc body) (Instr.execAll run' (sc.inside env') body) := by
  cases body with
  | nil =>
    unfold Instr.execAllUnread Instr.execAll
    exact .pure _
  | cons i rest =>
    unfold Instr.execAllUnread Instr.execAll
    refine boundary_oblivious.bind fun _ => ?_
    refine (Instr.execUnread_oblivious hrun h henv reading i).bind fun flow => ?_
    cases flow with
    | next => exact Instr.execAllUnread_oblivious hrun h henv reading rest
    | done v => exact .pure _

theorem Instr.execElseUnread_oblivious (hrun : run.Sound) (h : run.Oblivious run')
    (henv : sc.env.Alike env') (reading : ¬ sc.MayWrite flags) (body : Option (List Instr)) :
    Oblivious flags (Instr.execElseUnread run sc body)
      (Instr.execElse run' (sc.inside env') body) := by
  cases body with
  | none =>
    unfold Instr.execElseUnread Instr.execElse
    exact .pure _
  | some body =>
    unfold Instr.execElseUnread Instr.execElse
    exact Instr.execAllUnread_oblivious hrun h henv reading body
end

/-- Unless it gives up, a body does the same at sites that are alike as in an environment with
the same contracts. -/
theorem runUnread_oblivious (depth : Nat) : (runUnread depth).Oblivious (runBody depth) := by
  induction depth with
  | zero => exact fun _ _ _ _ _ _ _ _ _ => .spared
  | succ depth ih =>
    exact fun _ _ _ body henv reading =>
      Instr.execAllUnread_oblivious (runUnread_follows depth) ih henv reading body

end ContractVM
