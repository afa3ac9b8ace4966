/-
The life of a frame follows the relation.

A frame is pending, binds, executes, and is then merged into its caller or
undone.  What has to be shown is that the last step is always possible:
`attempt_lives` keeps the phase a frame stops in, and `openFrame_ends` concludes
that the only ways out of a callee are the three constructors of `Ends`.
-/
import ContractVM.Proofs.Exec.Following

namespace ContractVM

/-- A way to run bodies that follows the relation. -/
def Runner.Sound (run : Runner) : Prop :=
  ∀ sc body s, Follows (.body sc) s (run sc body) Anything

namespace Exec

variable {run : Runner} {sc : Scope} {s : Site}

/-! ## Entry points -/

variable {env : Environment} {r : Request} {c : Contract} {b : Bound}

theorem start_follows (found : env.registry.find? r.codeAddress = some c)
    (bound : c.bind r = .ok b) {sc : Scope} (entered : sc ∈ b.scopes env c) {act : ExecM Flow}
    (h : ∀ s, Follows (.body sc) s act Anything) :
    Follows (.executing env r) s (freshLocals act) Anything := by
  have ha := h { s with locals := ∅ }
  unfold Follows at ha
  unfold Follows freshLocals
  cases hr : act { s with locals := ∅ } with
  | ok a t =>
    rw [hr] at ha
    exact ⟨.start found bound entered ha.1, trivial⟩
  | error e t =>
    rw [hr] at ha
    exact Run.start found bound entered ha

theorem constructAll_follows (hrun : run.Sound) (found : env.registry.find? r.codeAddress = some c)
    (bound : c.bind r = .ok b) (inits : List (Owned ConstructorDef × Args))
    (entered : ∀ i ∈ inits, (⟨env, c, i.1.owner, .payable, i.2⟩ : Scope) ∈ b.scopes env c) :
    Follows (.executing env r) s (constructAll run env c inits) Anything := by
  induction inits generalizing s with
  | nil => exact .pure trivial
  | cons i rest ih =>
    obtain ⟨d, args⟩ := i
    refine (start_follows found bound (entered _ List.mem_cons_self) fun t => hrun _ _ t).bind
      fun _ t _ => ?_
    exact ih fun i hi => entered i (List.mem_cons_of_mem _ hi)

theorem runEntry_follows (hrun : run.Sound) (found : env.registry.find? r.codeAddress = some c)
    (bound : c.bind r = .ok b) :
    Follows (.executing env r) s (runEntry run env c b) Anything := by
  cases b with
  | construct inits =>
    refine (spend_follows (by decide)).bind fun _ t _ => ?_
    refine (constructAll_follows hrun found bound inits fun i hi => ?_).bind fun _ u _ =>
      .pure trivial
    exact List.mem_map_of_mem (f := fun i => (⟨env, c, i.1.owner, .payable, i.2⟩ : Scope)) hi
  | fallback fb =>
    refine (start_follows found bound (List.mem_singleton.2 rfl) fun t => hrun _ _ t).bind
      fun _ t _ => .pure trivial
  | function fn args =>
    refine (start_follows found bound (List.mem_singleton.2 rfl) fun t => hrun _ _ t).bind
      fun flow t _ => (lift_follows (.result fn.item flow)).anything

theorem holdLock_eq_ok (h : r.storageAddress ∉ s.world.locks) : holdLock r.storageAddress s =
    .ok () { s.lock r.storageAddress with frame := s.frame.hold ⟨r.storageAddress, true⟩ } := by
  unfold holdLock
  rw [bind_ok (lock_eq_ok h)]
  rfl

theorem holdLock_eq_error (h : r.storageAddress ∈ s.world.locks) :
    holdLock r.storageAddress s = .error (.raised (.alreadyEntered r.storageAddress) false) s := by
  unfold holdLock
  rw [bind_error (lock_eq_error h)]

/-- A frame is admitted to its entry point, or refused because its lock is taken. -/
theorem admission_cases (found : env.registry.find? r.codeAddress = some c) (s : Site) :
    (∃ guarded t, s.Admits env r guarded t ∧
      onlyIf (c.takesLock r) (holdLock r.storageAddress) s = .ok () t) ∨
    (c.takesLock r = true ∧ r.storageAddress ∈ s.world.locks ∧
      onlyIf (c.takesLock r) (holdLock r.storageAddress) s =
        .error (.raised (.alreadyEntered r.storageAddress) false) s) := by
  unfold onlyIf
  by_cases hc : c.takesLock r = true
  · rw [if_pos hc]
    by_cases hl : r.storageAddress ∈ s.world.locks
    · exact .inr ⟨hc, hl, holdLock_eq_error hl⟩
    · exact .inl ⟨true, _, .locking found hc hl, holdLock_eq_ok hl⟩
  · rw [if_neg hc]
    exact .inl ⟨false, s, .freely found (Bool.eq_false_iff.2 hc), rfl⟩

/-- What a frame that began at `s` ends with, before it is committed or undone. -/
def Lives {α : Type} (env : Environment) (r : Request) (s : Site) :
    EStateM.Result Fault Site α → Prop
  | .ok _ t => Run (.frame env r) s none t ∧ t.frame.phase = .committing
  | .error f t => Run (.frame env r) s (some f) t ∧
    (t.frame.phase = .binding ∨ t.frame.phase = .executing)

section Life

variable {α β : Type} {f g : Frame} {t u : Site} {guarded : Bool} {Q : α → Site → Prop}
  {act : ExecM α} {k : α → ExecM β}

theorem Lives.binding (moved : s.frame.transition .binding = .ok f)
    (before : Run (.binding env r) { s with frame := f } none t)
    (h : Follows (.binding env r) t act Q)
    (hk : ∀ a u, Run (.binding env r) { s with frame := f } none u → Q a u →
      Lives env r s (k a u)) : Lives env r s ((act >>= k) t) := by
  unfold Follows at h
  cases hr : act t with
  | ok a u =>
    rw [hr] at h
    rw [bind_ok hr]
    exact hk a u (before.trans h.1) h.2
  | error e u =>
    rw [hr] at h
    rw [bind_error hr]
    have hu : Run (.binding env r) { s with frame := f } (some e) u := before.trans h
    have hphase : u.frame.phase = .binding :=
      (hu.phase fun _ _ h => by cases h).trans (Frame.phase_transition moved)
    exact ⟨.refused moved hu, .inl hphase⟩

theorem Lives.executing (moved : s.frame.transition .binding = .ok f)
    (before : Run (.binding env r) { s with frame := f } none t) (admits : t.Admits env r guarded u)
    (h : Follows (.executing env r) { u with frame := g } act Q)
    (moved' : u.frame.transition .executing = .ok g)
    (hk : ∀ a v, Run (.executing env r) { u with frame := g } none v →
      Lives env r s (k a v)) : Lives env r s ((act >>= k) { u with frame := g }) := by
  unfold Follows at h
  cases hr : act { u with frame := g } with
  | ok a u =>
    rw [hr] at h
    rw [bind_ok hr]
    exact hk a u h.1
  | error e u =>
    rw [hr] at h
    rw [bind_error hr]
    have hphase : u.frame.phase = .executing :=
      (h.phase fun _ _ h => by cases h).trans (Frame.phase_transition moved')
    exact ⟨.failed moved before admits moved' h, .inr hphase⟩

end Life

/-- A fresh frame binds, executes and is ready to commit, or can be undone. -/
theorem attempt_lives (hrun : run.Sound) (env : Environment) (r : Request)
    (hs : s.frame.phase = .pending) : Lives env r s (attempt run env r s) := by
  obtain ⟨f, moved, hmove⟩ := move_eq (s := s) .binding (by rw [hs]; decide)
  have hphase := Frame.phase_transition moved
  unfold attempt
  rw [bind_ok hmove]
  refine Lives.binding moved .refl (lift_follows (.lookup _ _)) fun c t bt ht => ?_
  obtain ⟨rfl, hc⟩ := ht
  have found := Registry.lookup_eq_ok.1 hc
  refine Lives.binding moved bt (lift_follows (.bindRequest c r)) fun b u bu hu => ?_
  obtain ⟨rfl, bound⟩ := hu
  have pays : Follows (.binding env r) { s with frame := f }
      (onlyIf r.transfers (transfer r.caller r.storageAddress r.value)) Anything := by
    unfold onlyIf
    split
    · next h =>
      unfold Follows
      cases hs : Storage.transfer _ r.caller r.storageAddress r.value with
      | ok storage =>
        rw [transfer_eq_ok hs]
        exact ⟨.pay found bound h hs, trivial⟩
      | error e =>
        rw [transfer_eq_error hs]
        exact transfer_error_run hs
    · exact .pure trivial
  refine Lives.binding moved bu pays fun _ v bv _ => ?_
  rcases admission_cases found v with ⟨guarded, w, admits, hadmit⟩ | ⟨guarded, taken, hrefuse⟩
  · rw [bind_ok hadmit]
    have hw : w.frame.phase = .binding :=
      (admits.phase.trans (bv.phase fun _ _ h => by cases h)).trans hphase
    obtain ⟨g, moved', hmove'⟩ := move_eq (s := w) .executing (by rw [hw]; decide)
    rw [bind_ok hmove']
    refine Lives.executing moved bv admits (runEntry_follows hrun found bound) moved'
      fun value x bx => ?_
    have hx : x.frame.phase = .executing :=
      (bx.phase fun _ _ h => by cases h).trans (Frame.phase_transition moved')
    obtain ⟨h, moved'', hmove''⟩ := move_eq (s := x) .committing (by rw [hx]; decide)
    rw [bind_ok hmove'']
    exact ⟨.finished moved bv admits moved' bx moved'', Frame.phase_transition moved''⟩
  · rw [bind_error hrefuse]
    exact ⟨.refused moved (bv.trans (.occupied found guarded taken)), .inl
      ((bv.phase fun _ _ h => by cases h).trans hphase)⟩

/-! ## The end of a frame -/

inductive Ends {s : Site} (o : Opening sc s) : EStateM.Result Fault Site Outcome → Prop
  | committed {v t t' parent} (h : Run (.frame sc.env o.request) o.site none t)
    (ended : t.commitTo o.parent = .ok (t', parent)) :
    Ends o (.ok (.committed v t'.frame.meter.left) (o.caller.leave t' parent))
  | reverted {c p left t t'} (h : Run (.frame sc.env o.request) o.site (some (.raised c p)) t)
    (ended : t.revert c p = .ok (.reverted c left, t')) :
    Ends o (.ok (.reverted c left) (o.caller.leave t' o.parent))
  | aborted {f t storage} (h : Run (.frame sc.env o.request) o.site (some f) t)
    (foreign : ∀ c p, f ≠ .raised c p) (ended : t.world.storage.rollback = .ok storage) :
    Ends o (.error f (o.caller.leave (t.withStorage storage) o.parent))

theorem revert_eq_ok {t : Site} (c : Cause) (p : Bool) (hl : t.world.storage.layers ≠ [])
    (hphase : t.frame.phase = .binding ∨ t.frame.phase = .executing) :
    ∃ left t', t.revert c p = .ok (.reverted c left, t') := by
  obtain ⟨f, hf⟩ := Frame.transition_of_mem (f := t.frame) .reverting (by
    rcases hphase with h | h <;> rw [h] <;> decide)
  obtain ⟨storage, hs⟩ := Storage.rollback_eq_ok_of_ne hl
  obtain ⟨g, hg⟩ := Frame.transition_of_mem
    (f := { f.discard with meter := f.meter.fail (c.kind.policy p) }) .done (by
      show Phase.done ∈ f.phase.following
      rw [Frame.phase_transition hf]
      decide)
  exact ⟨_, _, Site.revert_of hf hs hg⟩

theorem commitTo_eq_ok {t : Site} (parent : Frame) (hl : t.world.storage.layers ≠ [])
    (hphase : t.frame.phase = .committing) : ∃ t' parent', t.commitTo parent = .ok (t', parent') := by
  obtain ⟨d, storage, hs⟩ := Storage.commit_eq_ok_of_ne hl
  obtain ⟨f, hf⟩ := Frame.transition_of_mem
    (f := { t.frame with terminations := [], pending := [] }) .done (by
      show Phase.done ∈ t.frame.phase.following
      rw [hphase]
      decide)
  exact ⟨_, _, Site.commitTo_of hs hf⟩

theorem settle_raised {t t' : Site} {c : Cause} {p : Bool} {out : Outcome}
    (ended : t.revert c p = .ok (out, t')) : t.settle (.raised c p) = .ok out t' := by
  unfold Site.settle
  simp only [ended]

theorem settle_foreign {t : Site} {f : Fault} {storage : Storage} (foreign : ∀ c p, f ≠ .raised c p)
    (ended : t.world.storage.rollback = .ok storage) :
    t.settle f = .error f (t.withStorage storage) := by
  unfold Site.settle
  split
  · exact absurd rfl (foreign _ _)
  · rw [ended]

/-- A frame that can be opened runs its request, and is merged or undone. -/
theorem openFrame_eq (run : Runner) (o : Opening sc s) :
    openFrame run sc.env o.request o.caller =
      match attempt run sc.env o.request o.site with
      | .ok v t =>
        match t.commitTo o.parent with
        | .ok (t', parent) => .ok (.committed v t'.frame.meter.left) (o.caller.leave t' parent)
        | .error m => .error (.misuse m) (o.caller.leave t o.parent)
      | .error fault t =>
        match t.settle fault with
        | .ok outcome t' => .ok outcome (o.caller.leave t' o.parent)
        | .error fault' t' => .error fault' (o.caller.leave t' o.parent) := by
  have hadopt : o.caller.frame.adopt o.child = .ok o.parent := by
    have hi : o.caller.frame.active = none := o.idle
    unfold Frame.adopt
    rw [if_neg (show ¬ o.child.parent ≠ some o.caller.frame.id from fun h => h rfl), hi]
    rfl
  have hbudget : GasMeter.ofBudget? o.request.gas = some o.meter := o.budget
  have hchild : Frame.start o.caller.world.opened (some o.caller.frame)
      (o.request.context sc.env.block) o.request.flags o.meter = o.child := rfl
  unfold openFrame
  rw [hbudget]
  simp only
  rw [hchild, hadopt]
  rfl

theorem openFrame_ends (hrun : run.Sound) (o : Opening sc s) :
    Ends o (openFrame run sc.env o.request o.caller) := by
  have hlives := attempt_lives (s := o.site) hrun sc.env o.request rfl
  rw [openFrame_eq]
  cases hr : attempt run sc.env o.request o.site with
  | ok v t =>
    rw [hr] at hlives
    have hl := (hlives.1.above (List.cons_ne_nil _ _)).layers_ne
    obtain ⟨t', parent, ended⟩ := commitTo_eq_ok o.parent hl hlives.2
    simp only [ended]
    exact .committed hlives.1 ended
  | error f t =>
    rw [hr] at hlives
    have hl := (hlives.1.above (List.cons_ne_nil _ _)).layers_ne
    simp only
    by_cases hf : ∃ c p, f = .raised c p
    · obtain ⟨c, p, rfl⟩ := hf
      obtain ⟨left, t', ended⟩ := revert_eq_ok c p hl hlives.2
      rw [settle_raised ended]
      exact .reverted hlives.1 ended
    · have foreign : ∀ c p, f ≠ .raised c p := fun c p h => hf ⟨c, p, h⟩
      obtain ⟨storage, ended⟩ := Storage.rollback_eq_ok_of_ne hl
      rw [settle_foreign foreign ended]
      exact .aborted hlives.1 foreign ended

theorem openFrame_overdrawn {r : Request} (h : GasMeter.ofBudget? r.gas = none) :
    openFrame run env r s = .error .negativeBudget s := by
  unfold openFrame
  rw [h]

theorem openFrame_busy {r : Request} {meter : GasMeter} (h : GasMeter.ofBudget? r.gas = some meter)
    (busy : s.frame.active ≠ none) : openFrame run env r s = .error (.misuse .childActive) s := by
  have ha : s.frame.adopt (Frame.start s.world.opened (some s.frame) (r.context env.block) r.flags
      meter) = .error .childActive := by
    unfold Frame.adopt
    rw [if_neg (fun h => h rfl), if_pos (Option.isSome_iff_ne_none.2 busy)]
  unfold openFrame
  rw [h]
  simp only [ha]

theorem ofBudget?_eq_none {n : Int} (h : GasMeter.ofBudget? n = none) : n < 0 := by
  unfold GasMeter.ofBudget? at h
  split at h
  · assumption
  · cases h

end Exec

end ContractVM
