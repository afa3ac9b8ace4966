/-
The buffers of a frame hold what lasts of its steps.

Every stretch of code is a segment of the trail (`Segment`), and it adds to the
frame's buffers just what the segment keeps: the frame's own events and ends, and
those of the callees that committed, in the order of the steps.  A callee buffers
for itself; its buffer is appended when it commits and forgotten otherwise, which
is what `Closing.did_keeps` says of the trail.
-/
import ContractVM.Proofs.Exec.Kept
import ContractVM.Proofs.Trail.Lasting

namespace ContractVM

/-- What happened between two sites of a frame, and what it put into the buffers. -/
structure Telling (s t : Site) (steps : Trail) : Prop where
  trail : t.world.trail = steps ++ s.world.trail
  segment : Segment s.frame.id s.frame.ctx.self s.world.opened t.world.opened steps
  pending : t.frame.pending =
    s.frame.pending ++ steps.did Step.emission? (steps.keeps s.frame.id)
  terminations : t.frame.terminations =
    s.frame.terminations ++ steps.did Step.destruction? (steps.keeps s.frame.id)

/-! ## Single steps -/

/-- A step that neither opens nor ends a frame, nor emits, nor destroys. -/
structure Step.Silent (step : Step) : Prop where
  opening : step.opening? = none
  commit : step.commit? = none
  undoing : step.undoing? = none
  actor : step.actor? = none
  acting : step.acting? = none

theorem Step.Silent.filterMap {α : Type} {what : Step → Option α} {step : Step}
    (h : what step = none) : List.filterMap what [step] = [] := by
  rw [List.filterMap_cons, h]
  rfl

theorem Step.Silent.did {α : Type} {what : Step → Option (Nat × α)} (acted : Step.Acted what)
    {step : Step} (h : step.Silent) (keep : Nat → Bool) : Trail.did [step] what keep = [] := by
  refine Trail.did_eq_nil fun x hx => ?_
  obtain ⟨a, ha⟩ := acted.mem hx
  rw [Silent.filterMap h.actor] at ha
  cases ha

theorem Step.Silent.segment {step : Step} (h : step.Silent) (root lo : Nat) (own : Address) :
    Segment root own lo lo [step] where
  le := Nat.le_refl _
  opened := fun x hx => by rw [Silent.filterMap h.opening] at hx; cases hx
  committed := fun f hf => by rw [Silent.filterMap h.commit] at hf; cases hf
  undone := fun f hf => by rw [Silent.filterMap h.undoing] at hf; cases hf
  acts := fun x hx => by rw [Silent.filterMap h.actor] at hx; cases hx
  acting := fun x hx => by rw [Silent.filterMap h.acting] at hx; cases hx
  apart := fun f hf => by unfold Trail.Committed at hf; rw [Silent.filterMap h.commit] at hf; cases hf

theorem Segment.act {step : Step} {root : Nat} {own : Address} (lo : Nat)
    (h : step.actor? = some (root, own)) (hopen : step.opening? = none)
    (hcommit : step.commit? = none) (hundo : step.undoing? = none) (hacting : step.acting? = none) :
    Segment root own lo lo [step] where
  le := Nat.le_refl _
  opened := fun x hx => by rw [Step.Silent.filterMap hopen] at hx; cases hx
  committed := fun f hf => by rw [Step.Silent.filterMap hcommit] at hf; cases hf
  undone := fun f hf => by rw [Step.Silent.filterMap hundo] at hf; cases hf
  acts := fun x hx => by
    rw [List.filterMap_cons, h] at hx
    exact .inl (List.mem_singleton.1 hx)
  acting := fun x hx => by rw [Step.Silent.filterMap hacting] at hx; cases hx
  apart := fun f hf => by
    unfold Trail.Committed at hf
    rw [Step.Silent.filterMap hcommit] at hf
    cases hf

namespace Telling

variable {s t u : Site} {steps steps' : Trail}

theorem quiet (htrail : t.world.trail = s.world.trail) (hopened : t.world.opened = s.world.opened)
    (hpending : t.frame.pending = s.frame.pending)
    (hends : t.frame.terminations = s.frame.terminations) : Telling s t [] where
  trail := htrail
  segment := hopened ▸ .nil
  pending := hpending.trans (List.append_nil _).symm
  terminations := hends.trans (List.append_nil _).symm

theorem silent {step : Step} (h : step.Silent) (htrail : t.world.trail = step :: s.world.trail)
    (hopened : t.world.opened = s.world.opened) (hpending : t.frame.pending = s.frame.pending)
    (hends : t.frame.terminations = s.frame.terminations) : Telling s t [step] where
  trail := htrail
  segment := hopened ▸ h.segment _ _ _
  pending := by rw [hpending, h.did Step.acted_emission, List.append_nil]
  terminations := by rw [hends, h.did Step.acted_destruction, List.append_nil]

theorem emitted {e : Event} (hself : e.address = s.frame.ctx.self)
    (htrail : t.world.trail = .emitted s.frame.id e :: s.world.trail)
    (hopened : t.world.opened = s.world.opened) (hpending : t.frame.pending = s.frame.pending ++ [e])
    (hends : t.frame.terminations = s.frame.terminations) :
    Telling s t [.emitted s.frame.id e] where
  trail := htrail
  segment := hopened ▸ .act _ (congrArg (fun a => some (s.frame.id, a)) hself) rfl rfl rfl rfl
  pending := by
    have hkept : Trail.did [.emitted s.frame.id e] Step.emission?
        (Trail.keeps [.emitted s.frame.id e] s.frame.id) = [e] := by
      simp [Trail.did, Trail.keeps, Step.emission?]
    rw [hpending, hkept]
  terminations := hends.trans (List.append_nil _).symm

theorem destroyed
    (htrail : t.world.trail = .destroyed s.frame.id s.frame.ctx.self :: s.world.trail)
    (hopened : t.world.opened = s.world.opened) (hpending : t.frame.pending = s.frame.pending)
    (hends : t.frame.terminations = s.frame.terminations ++ [s.frame.ctx.self]) :
    Telling s t [.destroyed s.frame.id s.frame.ctx.self] where
  trail := htrail
  segment := hopened ▸ .act _ rfl rfl rfl rfl rfl
  pending := hpending.trans (List.append_nil _).symm
  terminations := by
    have hkept : Trail.did [.destroyed s.frame.id s.frame.ctx.self] Step.destruction?
        (Trail.keeps [.destroyed s.frame.id s.frame.ctx.self] s.frame.id) = [s.frame.ctx.self] := by
      simp [Trail.did, Trail.keeps, Step.destruction?]
    rw [hends, hkept]

theorem locked (s : Site) (a : Address) (locals : Table Value) :
    Telling s { s.lock a with locals := locals } [.locked s.frame.id a] :=
  .silent ⟨rfl, rfl, rfl, rfl, rfl⟩ rfl rfl rfl rfl

theorem unlocked (s : Site) (a : Address) (locals : Table Value) :
    Telling s (Site.unlock { s with locals := locals } [⟨a, true⟩]) [.unlocked s.frame.id a] :=
  .silent ⟨rfl, rfl, rfl, rfl, rfl⟩ rfl rfl rfl rfl

theorem trans (h : Telling s t steps) (h' : Telling t u steps') (hf : s.frame.Same t.frame) :
    Telling s u (steps' ++ steps) := by
  have hseg := h'.segment
  rw [hf.id, hf.ctx] at hseg
  refine ⟨?_, h.segment.append hseg, ?_, ?_⟩
  · rw [h'.trail, h.trail, List.append_assoc]
  · rw [h'.pending, h.pending, h.segment.did_append hseg Step.acted_emission, hf.id,
      List.append_assoc]
  · rw [h'.terminations, h.terminations, h.segment.did_append hseg Step.acted_destruction, hf.id,
      List.append_assoc]

theorem moved {f : Frame} {next : Phase} (h : s.frame.transition next = .ok f) :
    Telling s { s with frame := f } [] := by
  have hf := (Frame.transition_eq_ok h).2
  exact .quiet rfl rfl (by rw [hf]) (by rw [hf])

theorem admitted {env : Environment} {r : Request} {b : Bool} (h : s.Admits env r b t) :
    ∃ steps, Telling s t steps := by
  cases h with
  | freely => exact ⟨_, .quiet rfl rfl rfl rfl⟩
  | locking => exact ⟨_, .silent ⟨rfl, rfl, rfl, rfl, rfl⟩ rfl rfl rfl rfl⟩

/-- A frame that has bound its request and was admitted, as it begins to execute. -/
theorem executing {env : Environment} {r : Request} {b : Bool} {f g : Frame}
    (moved : s.frame.transition .binding = .ok f) (h : Telling { s with frame := f } t steps)
    (same : f.Same t.frame) (admits : t.Admits env r b u)
    (moved' : u.frame.transition .executing = .ok g) :
    ∃ steps, Telling s { u with frame := g } steps ∧ s.frame.Same g := by
  have hbind := (Frame.same_transition moved).trans same
  have bound := (Telling.moved moved).trans h (Frame.same_transition moved)
  obtain ⟨steps', taken⟩ := admitted admits
  have hadmit := hbind.trans admits.same
  exact ⟨_, (bound.trans taken hbind).trans (.moved moved') hadmit,
    hadmit.trans (Frame.same_transition moved')⟩

end Telling

/-! ## The end of a callee -/

theorem Trail.filterMap_releases {α : Type} {what : Step → Option α} (c : Nat)
    (tokens : List LockToken) (last : Trail) (h : ∀ a, what (.unlocked c a) = none) :
    (releases c tokens ++ last).filterMap what = last.filterMap what := by
  have hnone : (releases c tokens).filterMap what = [] := by
    rw [List.filterMap_eq_nil_iff]
    intro step hstep
    obtain ⟨t, -, rfl⟩ := List.mem_map.1 (List.mem_reverse.1 hstep)
    exact h _
  rw [List.filterMap_append, hnone, List.nil_append]

namespace Closing

variable {c : Nat}

theorem committed_of_commit (c : Nat) (tokens : List LockToken) (left : Int) :
    Trail.Committed (Trail.releases c tokens ++ [.committed c left]) c := by
  unfold Trail.Committed
  rw [Trail.filterMap_releases c tokens _ fun _ => rfl]
  exact List.mem_singleton.2 rfl

theorem of_commit (c : Nat) (tokens : List LockToken) (left : Int) :
    Closing c (Trail.releases c tokens ++ [.committed c left]) := by
  have none_undone : ∀ f, ¬ Trail.Undone (Trail.releases c tokens ++ [.committed c left]) f := by
    intro f hf
    unfold Trail.Undone at hf
    rw [Trail.filterMap_releases c tokens _ fun _ => rfl] at hf
    cases hf
  constructor
  case opening => exact Trail.filterMap_releases c tokens _ fun _ => rfl
  case actor => exact Trail.filterMap_releases c tokens _ fun _ => rfl
  case acting => exact Trail.filterMap_releases c tokens _ fun _ => rfl
  case committed =>
    intro f hf
    unfold Trail.Committed at hf
    rw [Trail.filterMap_releases c tokens _ fun _ => rfl] at hf
    exact List.mem_singleton.1 hf
  case undone => exact fun f hf => absurd hf (none_undone f)
  case apart => exact fun f _ => none_undone f

/-- The end of a frame that does not commit: it was undone, or the transaction is
given up. -/
theorem of_no_commit (tokens : List LockToken) (last : Trail) (hopen : last.filterMap Step.opening? = [])
    (hactor : last.filterMap Step.actor? = []) (hacting : last.filterMap Step.acting? = [])
    (hcommit : last.filterMap Step.commit? = []) (hundone : ∀ f, last.Undone f → f = c) :
    Closing c (Trail.releases c tokens ++ last) ∧
      ¬ Trail.Committed (Trail.releases c tokens ++ last) c := by
  have none_committed : ∀ f, ¬ Trail.Committed (Trail.releases c tokens ++ last) f := by
    intro f hf
    unfold Trail.Committed at hf
    rw [Trail.filterMap_releases c tokens _ fun _ => rfl, hcommit] at hf
    cases hf
  refine ⟨?_, none_committed c⟩
  constructor
  case opening => rw [Trail.filterMap_releases c tokens _ fun _ => rfl, hopen]
  case actor => rw [Trail.filterMap_releases c tokens _ fun _ => rfl, hactor]
  case acting => rw [Trail.filterMap_releases c tokens _ fun _ => rfl, hacting]
  case committed => exact fun f hf => absurd hf (none_committed f)
  case undone =>
    intro f hf
    unfold Trail.Undone at hf
    rw [Trail.filterMap_releases c tokens _ fun _ => rfl] at hf
    exact hundone f hf
  case apart => exact fun f hf => absurd hf (none_committed f)

end Closing

variable {sc : Scope} {s t : Site} {steps post : Trail}

/-- What a caller is told of a callee, whose end is `post`. -/
theorem Opening.telling (o : Opening sc s) (hid : s.frame.id < s.world.opened)
    (h : Telling o.site t steps) (closing : Closing s.world.opened post) {u : Site}
    (htrail : u.world.trail = post ++ t.world.trail) (hopened : u.world.opened = t.world.opened)
    (hpending : u.frame.pending = s.frame.pending ++
      if post.Committed s.world.opened then t.frame.pending else [])
    (hends : u.frame.terminations = s.frame.terminations ++
      if post.Committed s.world.opened then t.frame.terminations else []) :
    Telling s u (Closing.around post steps s.world.opened (some s.frame.id) o.child.depth
      o.child.ctx.self o.child.ctx.codeAddress o.child.meter.budget) := by
  have hseg : Segment s.world.opened o.child.ctx.self (s.world.opened + 1) t.world.opened steps :=
    h.segment
  have hevents : t.frame.pending = steps.did Step.emission? (steps.keeps s.world.opened) :=
    h.pending
  have hdestroyed : t.frame.terminations =
      steps.did Step.destruction? (steps.keeps s.world.opened) := h.terminations
  refine ⟨?_, ?_, ?_, ?_⟩
  · rw [htrail, h.trail, Closing.around, List.append_assoc, List.append_assoc]
    rfl
  · rw [hopened]
    exact hseg.around closing hid
  · rw [hpending, closing.did_keeps Step.acted_emission hseg hid, hevents]
  · rw [hends, closing.did_keeps Step.acted_destruction hseg hid, hdestroyed]

/-- The steps of a callee that commits and leaves the site `t`, as its caller sees them. -/
def Opening.committing (o : Opening sc s) (t : Site) (steps : Trail) : Trail :=
  Closing.around (Trail.releases s.world.opened t.frame.tokens ++
    [.committed s.world.opened t.frame.meter.left]) steps s.world.opened (some s.frame.id)
    o.child.depth o.child.ctx.self o.child.ctx.codeAddress o.child.meter.budget

theorem Opening.tells_committed (o : Opening sc s) (hid : s.frame.id < s.world.opened)
    (h : Telling o.site t steps) (same : o.site.frame.Same t.frame) {t' : Site} {parent : Frame}
    (ended : t.commitTo o.parent = .ok (t', parent)) :
    Telling s ((o.caller.leave t' parent).refund t'.frame.meter.left) (o.committing t' steps) := by
  have hf := o.frame_committed same.id ended
  obtain ⟨d, storage, f, -, hdone, rfl, -⟩ := Site.commitTo_eq ended
  have hc : f.id = s.world.opened := (Frame.same_transition hdone).id.trans same.id
  have hpost := Closing.committed_of_commit s.world.opened f.tokens f.meter.left
  refine o.telling hid h (.of_commit _ f.tokens f.meter.left) ?_ rfl ?_ ?_
  · rw [← hc]
    show _ ++ (_ :: _) = (_ ++ [_]) ++ _
    rw [List.append_assoc]
    rfl
  · rw [if_pos hpost]
    exact congrArg Frame.pending hf
  · rw [if_pos hpost]
    exact congrArg Frame.terminations hf

theorem Opening.tells_reverted (o : Opening sc s) (hid : s.frame.id < s.world.opened)
    (h : Telling o.site t steps) (same : o.site.frame.Same t.frame) {t' : Site} {c : Cause}
    {p : Bool} {left : Int} (ended : t.revert c p = .ok (.reverted c left, t')) :
    ∃ steps, Telling s ((o.caller.leave t' o.parent).refund left) steps := by
  have hf := o.frame_undone ((Site.id_revert ended).trans same.id)
  have hpending := congrArg Frame.pending hf
  have hends := congrArg Frame.terminations hf
  obtain ⟨f, g, storage, hback, -, hdone, -, rfl⟩ := Site.revert_eq ended
  have hc : g.id = s.world.opened := ((Frame.same_transition hdone).id.trans
    (Frame.same_transition hback).id).trans same.id
  obtain ⟨closing, hpost⟩ := Closing.of_no_commit (c := s.world.opened) g.tokens
    [.reverted g.id g.depth g.ctx.codeAddress c p g.meter.left] rfl rfl rfl rfl
    fun f hf => (List.mem_singleton.1 hf).trans hc
  refine ⟨_, o.telling hid h closing ?_ rfl ?_ ?_⟩
  · rw [← hc]
    show _ ++ (_ :: _) = (_ ++ [_]) ++ _
    rw [List.append_assoc]
    rfl
  · rw [if_neg hpost, List.append_nil]
    exact hpending
  · rw [if_neg hpost, List.append_nil]
    exact hends

theorem Opening.tells_aborted (o : Opening sc s) (hid : s.frame.id < s.world.opened)
    (h : Telling o.site t steps) (same : o.site.frame.Same t.frame) (storage : Storage) :
    ∃ steps, Telling s (o.caller.leave (t.withStorage storage) o.parent) steps := by
  have hf := o.frame_undone (t := t.withStorage storage) same.id
  have hpending := congrArg Frame.pending hf
  have hends := congrArg Frame.terminations hf
  obtain ⟨closing, hpost⟩ := Closing.of_no_commit (c := s.world.opened) t.frame.tokens [] rfl rfl
    rfl rfl fun f hf => nomatch hf
  refine ⟨_, o.telling hid h closing ?_ rfl ?_ ?_⟩
  · rw [List.append_nil, ← show t.frame.id = s.world.opened from same.id]
    rfl
  · rw [if_neg hpost, List.append_nil]
    exact hpending
  · rw [if_neg hpost, List.append_nil]
    exact hends

/-- Code puts into the buffers of its frame what lasts of its steps. -/
theorem Run.tells {p : Place} {e : Option Fault} (h : Run p s e t)
    (hid : s.frame.id < s.world.opened) : ∃ steps, Telling s t steps := by
  induction h with
  | refl => exact ⟨_, .quiet rfl rfl rfl rfl⟩
  | trans first rest ih ih' =>
    obtain ⟨steps, h⟩ := ih hid
    have hle := h.segment.le
    obtain ⟨steps', h'⟩ := ih' (by rw [first.same.id]; omega)
    exact ⟨_, h.trans h' first.same⟩
  | raise => exact ⟨_, .quiet rfl rfl rfl rfl⟩
  | stuck => exact ⟨_, .quiet rfl rfl rfl rfl⟩
  | spend => exact ⟨_, .quiet rfl rfl rfl rfl⟩
  | exhaust => exact ⟨_, .quiet rfl rfl rfl rfl⟩
  | blocked => exact ⟨_, .quiet rfl rfl rfl rfl⟩
  | boundary => exact ⟨_, .silent ⟨rfl, rfl, rfl, rfl, rfl⟩ rfl rfl rfl rfl⟩
  | assign => exact ⟨_, .quiet rfl rfl rfl rfl⟩
  | write => exact ⟨_, .quiet rfl rfl rfl rfl⟩
  | emit => exact ⟨_, .emitted rfl rfl rfl rfl rfl⟩
  | destroy => exact ⟨_, .destroyed rfl rfl rfl rfl⟩
  | jump => exact ⟨_, .silent ⟨rfl, rfl, rfl, rfl, rfl⟩ rfl rfl rfl rfl⟩
  | invoke _ _ _ _ ih =>
    obtain ⟨steps, h⟩ := ih hid
    exact ⟨steps, h.trail, h.segment, h.pending, h.terminations⟩
  | @guarded _ s _ _ _ t _ _ _ _ inner ih =>
    obtain ⟨steps, h⟩ := ih hid
    have locked := Telling.locked s s.frame.ctx.self ∅
    exact ⟨_, locked.trans (h.trans (.unlocked t _ s.locals) inner.same) (.refl _)⟩
  | send => exact ⟨_, .quiet rfl rfl rfl rfl⟩
  | swallow => exact ⟨_, .silent ⟨rfl, rfl, rfl, rfl, rfl⟩ rfl rfl rfl rfl⟩
  | overdraw => exact ⟨_, .quiet rfl rfl rfl rfl⟩
  | committed o inner ended ih =>
    obtain ⟨steps, h⟩ := ih (Nat.lt_succ_self _)
    exact ⟨_, o.tells_committed hid h inner.same ended⟩
  | passed o inner ended ih =>
    obtain ⟨steps, h⟩ := ih (Nat.lt_succ_self _)
    exact o.tells_reverted hid h inner.same ended
  | @caught _ s _ t' c _ left fn locals o inner ended ih =>
    obtain ⟨steps, h⟩ := ih (Nat.lt_succ_self _)
    obtain ⟨steps', h'⟩ := o.tells_reverted hid h inner.same ended
    have noted : Telling ((o.caller.leave t' o.parent).refund left)
        (Site.note { (o.caller.leave t' o.parent).refund left with locals := locals }
          (.callFailed s.frame.id fn c)) [.callFailed s.frame.id fn c] :=
      .silent ⟨rfl, rfl, rfl, rfl, rfl⟩ rfl rfl rfl rfl
    exact ⟨_, h'.trans noted (Run.passed o inner ended).same⟩
  | aborted o inner _ _ ih =>
    obtain ⟨steps, h⟩ := ih (Nat.lt_succ_self _)
    exact o.tells_aborted hid h inner.same _
  | pay => exact ⟨_, .quiet rfl rfl rfl rfl⟩
  | occupied => exact ⟨_, .quiet rfl rfl rfl rfl⟩
  | start _ _ _ _ ih =>
    obtain ⟨steps, h⟩ := ih hid
    exact ⟨steps, h.trail, h.segment, h.pending, h.terminations⟩
  | refused moved bind ih =>
    obtain ⟨steps, h⟩ := ih (by rw [(Frame.same_transition moved).id]; exact hid)
    exact ⟨_, (Telling.moved moved).trans h (Frame.same_transition moved)⟩
  | failed moved bind admits moved' exec ih ih' =>
    obtain ⟨steps, h⟩ := ih (by rw [(Frame.same_transition moved).id]; exact hid)
    obtain ⟨steps', bound, same⟩ := h.executing moved bind.same admits moved'
    obtain ⟨steps'', h'⟩ := ih' (by rw [same.id]; exact Nat.lt_of_lt_of_le hid bound.segment.le)
    exact ⟨_, bound.trans h' same⟩
  | finished moved bind admits moved' exec moved'' ih ih' =>
    obtain ⟨steps, h⟩ := ih (by rw [(Frame.same_transition moved).id]; exact hid)
    obtain ⟨steps', bound, same⟩ := h.executing moved bind.same admits moved'
    obtain ⟨steps'', h'⟩ := ih' (by rw [same.id]; exact Nat.lt_of_lt_of_le hid bound.segment.le)
    exact ⟨_, (bound.trans h' same).trans (.moved moved'') (same.trans exec.same)⟩

end ContractVM
