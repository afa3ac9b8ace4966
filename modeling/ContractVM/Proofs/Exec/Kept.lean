/-
What every run leaves alone, whatever code does.

A frame stays the frame it is (`Run.same`), and outside its own beginning and end
it stays in its phase (`Run.phase`).  Its writes go to the topmost layer, so the
persisted state and the layers of its callers are untouched (`Run.above`).  The
locks are those it found and the ones it holds until it ends (`Run.locks`): the
locks of invocations and of callees are gone again.

Each is one induction over `Run`, in which a call is the only case with an
argument, since a callee has a frame and a layer of its own.
-/
import ContractVM.Proofs.Exec.Run
import ContractVM.Proofs.Storage.Stack

namespace ContractVM

/-! ## The frame -/

/-- Two states of one frame between two instructions of its code. -/
structure Frame.Same (f g : Frame) : Prop where
  id : g.id = f.id
  parent : g.parent = f.parent
  depth : g.depth = f.depth
  ctx : g.ctx = f.ctx
  flags : g.flags = f.flags
  active : g.active = f.active

namespace Frame.Same

theorem refl (f : Frame) : f.Same f := ⟨rfl, rfl, rfl, rfl, rfl, rfl⟩

theorem trans {f g h : Frame} (hfg : f.Same g) (hgh : g.Same h) : f.Same h where
  id := hgh.id.trans hfg.id
  parent := hgh.parent.trans hfg.parent
  depth := hgh.depth.trans hfg.depth
  ctx := hgh.ctx.trans hfg.ctx
  flags := hgh.flags.trans hfg.flags
  active := hgh.active.trans hfg.active

end Frame.Same

namespace Frame

theorem transition_eq_ok {f g : Frame} {next : Phase} (h : f.transition next = .ok g) :
    next ∈ f.phase.following ∧ g = { f with phase := next, ending := g.ending } := by
  unfold transition at h
  split at h
  · next hn =>
    cases h
    exact ⟨hn, rfl⟩
  · cases h

theorem transition_of_mem {f : Frame} (next : Phase) (h : next ∈ f.phase.following) :
    ∃ g, f.transition next = .ok g := by
  unfold transition
  rw [if_pos h]
  exact ⟨_, rfl⟩

theorem same_transition {f g : Frame} {next : Phase} (h : f.transition next = .ok g) :
    f.Same g := by
  rw [(transition_eq_ok h).2]
  exact ⟨rfl, rfl, rfl, rfl, rfl, rfl⟩

theorem phase_transition {f g : Frame} {next : Phase} (h : f.transition next = .ok g) :
    g.phase = next := by
  rw [(transition_eq_ok h).2]

theorem meter_transition {f g : Frame} {next : Phase} (h : f.transition next = .ok g) :
    g.meter = f.meter := by
  rw [(transition_eq_ok h).2]

theorem tokens_transition {f g : Frame} {next : Phase} (h : f.transition next = .ok g) :
    g.tokens = f.tokens := by
  rw [(transition_eq_ok h).2]

end Frame

namespace Opening

variable {sc : Scope} {s : Site}

/-- Once the callee is let go, the caller's frame is what it was before the call
but for what it paid and what it was handed. -/
theorem release_parent (o : Opening sc s) {g : Frame} (hg : g.id = s.world.opened)
    (ends : List Address) (events : List Event) :
    Frame.release { o.parent with terminations := ends, pending := events } g =
      { s.frame with meter := o.paid, terminations := ends, pending := events } := by
  have hi := o.idle
  unfold parent Frame.release
  rw [hg, if_pos rfl]
  show ({ s.frame with
    meter := o.paid, active := none, terminations := ends, pending := events } : Frame) = _
  rw [← hi]

theorem budget_paid (o : Opening sc s) : o.paid.budget = s.frame.meter.budget :=
  (GasMeter.budget_charge o.forward).trans (GasMeter.budget_charge o.fee)

end Opening

theorem Site.commitTo_eq {t t' : Site} {parent parent' : Frame}
    (h : t.commitTo parent = .ok (t', parent')) :
    ∃ d storage f, t.world.storage.commit = .ok (d, storage) ∧
      { t.frame with terminations := [], pending := [] }.transition .done = .ok f ∧
      t' = Site.note { t.withStorage storage with frame := f } (.committed f.id f.meter.left) ∧
      parent' = { parent with
        terminations := parent.terminations ++ t.frame.terminations
        pending := parent.pending ++ t.frame.pending } := by
  unfold Site.commitTo at h
  cases hc : t.world.storage.commit with
  | error m => rw [hc] at h; cases h
  | ok r =>
    obtain ⟨d, storage⟩ := r
    rw [hc] at h
    simp only [bind, Except.bind, Frame.passTerminations, Frame.passEvents] at h
    cases hf : ({ t.frame with terminations := [], pending := [] } : Frame).transition .done with
    | error m => rw [hf] at h; cases h
    | ok f =>
      rw [hf] at h
      cases h
      exact ⟨d, storage, f, rfl, rfl, rfl, rfl⟩

theorem Site.commitTo_of {t : Site} {parent f : Frame} {d : Option Delta} {storage : Storage}
    (merged : t.world.storage.commit = .ok (d, storage))
    (done : { t.frame with terminations := [], pending := [] }.transition .done = .ok f) :
    t.commitTo parent =
      .ok (Site.note { t.withStorage storage with frame := f } (.committed f.id f.meter.left),
        { parent with
          terminations := parent.terminations ++ t.frame.terminations
          pending := parent.pending ++ t.frame.pending }) := by
  unfold Site.commitTo
  rw [merged]
  show (Frame.transition { t.frame with terminations := [], pending := [] } .done >>= _) = _
  rw [done]
  rfl

theorem Site.revert_eq {t t' : Site} {c : Cause} {p : Bool} {o : Outcome}
    (h : t.revert c p = .ok (o, t')) :
    ∃ f g storage, t.frame.transition .reverting = .ok f ∧ t.world.storage.rollback = .ok storage ∧
      { f.discard with meter := f.meter.fail (c.kind.policy p) }.transition .done = .ok g ∧
      o = .reverted c g.meter.left ∧
      t' = Site.note { t.withStorage storage with frame := g }
        (.reverted g.id g.depth g.ctx.codeAddress c p g.meter.left) := by
  unfold Site.revert at h
  cases hf : t.frame.transition .reverting with
  | error m => rw [hf] at h; cases h
  | ok f =>
    rw [hf] at h
    simp only [bind, Except.bind] at h
    cases hs : t.world.storage.rollback with
    | error m => rw [hs] at h; cases h
    | ok storage =>
      rw [hs] at h
      simp only at h
      cases hg : ({ f.discard with meter := f.meter.fail (c.kind.policy p) } : Frame).transition
          .done with
      | error m => rw [hg] at h; cases h
      | ok g =>
        rw [hg] at h
        cases h
        exact ⟨f, g, storage, rfl, rfl, hg, rfl, rfl⟩

theorem Site.revert_of {t : Site} {c : Cause} {p : Bool} {f g : Frame} {storage : Storage}
    (reverting : t.frame.transition .reverting = .ok f)
    (dropped : t.world.storage.rollback = .ok storage)
    (done : { f.discard with meter := f.meter.fail (c.kind.policy p) }.transition .done = .ok g) :
    t.revert c p = .ok (.reverted c g.meter.left,
      Site.note { t.withStorage storage with frame := g }
        (.reverted g.id g.depth g.ctx.codeAddress c p g.meter.left)) := by
  unfold Site.revert
  rw [reverting]
  show (t.world.storage.rollback >>= _) = _
  rw [dropped]
  show (Frame.transition { f.discard with meter := f.meter.fail (c.kind.policy p) } .done >>= _) = _
  rw [done]
  rfl

/-- What a frame comes to that ends with a fault: a failure is undone and reported, any other
fault goes on once the layer of the frame is dropped, unless that cannot be done. -/
inductive Site.Settles (t : Site) : Fault → EStateM.Result Fault Site Outcome → Prop
  | reverted {c p o t'} (ended : t.revert c p = .ok (o, t')) : Settles t (.raised c p) (.ok o t')
  | dropped {f storage} (foreign : ∀ c p, f ≠ .raised c p)
    (rolled : t.world.storage.rollback = .ok storage) :
    Settles t f (.error f (t.withStorage storage))
  | misused {f e} : Settles t f (.error (.misuse e) t)

theorem Site.settle_cases (t : Site) (f : Fault) : t.Settles f (t.settle f) := by
  unfold Site.settle
  split
  · split
    · next ended => exact .reverted ended
    · exact .misused
  · next foreign =>
    split
    · next rolled => exact .dropped foreign rolled
    · exact .misused

theorem Opening.frame_committed {sc : Scope} {s t t' : Site} {parent : Frame} (o : Opening sc s)
    (hid : t.frame.id = s.world.opened) (h : t.commitTo o.parent = .ok (t', parent)) :
    (o.caller.leave t' parent).frame = { s.frame with
      meter := o.paid
      terminations := s.frame.terminations ++ t.frame.terminations
      pending := s.frame.pending ++ t.frame.pending } := by
  obtain ⟨d, storage, f, -, hf, rfl, rfl⟩ := Site.commitTo_eq h
  exact o.release_parent ((Frame.same_transition hf).id.trans hid) _ _

theorem Opening.frame_undone {sc : Scope} {s t : Site} (o : Opening sc s)
    (hid : t.frame.id = s.world.opened) :
    (o.caller.leave t o.parent).frame = { s.frame with meter := o.paid } :=
  o.release_parent hid _ _

theorem Site.id_revert {t t' : Site} {c : Cause} {p : Bool} {o : Outcome}
    (h : t.revert c p = .ok (o, t')) : t'.frame.id = t.frame.id := by
  obtain ⟨f, g, storage, hf, -, hg, -, rfl⟩ := Site.revert_eq h
  exact (Frame.same_transition hg).id.trans (Frame.same_transition hf).id

theorem Site.Admits.same {env : Environment} {r : Request} {s t : Site} {b : Bool}
    (h : s.Admits env r b t) : s.frame.Same t.frame := by
  cases h with
  | freely => exact .refl _
  | locking => exact ⟨rfl, rfl, rfl, rfl, rfl, rfl⟩

theorem Site.Admits.storage {env : Environment} {r : Request} {s t : Site} {b : Bool}
    (h : s.Admits env r b t) : t.world.storage = s.world.storage := by
  cases h <;> rfl

theorem Site.Admits.phase {env : Environment} {r : Request} {s t : Site} {b : Bool}
    (h : s.Admits env r b t) : t.frame.phase = s.frame.phase := by
  cases h <;> rfl

theorem Site.Admits.meter {env : Environment} {r : Request} {s t : Site} {b : Bool}
    (h : s.Admits env r b t) : t.frame.meter = s.frame.meter := by
  cases h <;> rfl

theorem Run.same {p : Place} {s t : Site} {e : Option Fault} (h : Run p s e t) :
    s.frame.Same t.frame := by
  induction h with
  | refl => exact .refl _
  | trans _ _ ih ih' => exact ih.trans ih'
  | raise => exact .refl _
  | stuck => exact ⟨rfl, rfl, rfl, rfl, rfl, rfl⟩
  | spend => exact ⟨rfl, rfl, rfl, rfl, rfl, rfl⟩
  | exhaust => exact .refl _
  | blocked => exact .refl _
  | boundary => exact .refl _
  | assign => exact .refl _
  | write => exact ⟨rfl, rfl, rfl, rfl, rfl, rfl⟩
  | emit => exact ⟨rfl, rfl, rfl, rfl, rfl, rfl⟩
  | destroy => exact ⟨rfl, rfl, rfl, rfl, rfl, rfl⟩
  | jump => exact ⟨rfl, rfl, rfl, rfl, rfl, rfl⟩
  | invoke _ _ _ _ ih => exact ih
  | guarded _ _ _ _ _ ih => exact ih
  | send => exact .refl _
  | swallow => exact .refl _
  | overdraw => exact ⟨rfl, rfl, rfl, rfl, rfl, rfl⟩
  | committed o _ ended ih =>
    have hf := o.frame_committed ih.id ended
    unfold Site.refund Site.withMeter
    rw [hf]
    exact ⟨rfl, rfl, rfl, rfl, rfl, rfl⟩
  | passed o _ ended ih | caught _ _ o _ ended ih =>
    have hf := o.frame_undone ((Site.id_revert ended).trans ih.id)
    unfold Site.refund Site.withMeter
    rw [hf]
    exact ⟨rfl, rfl, rfl, rfl, rfl, rfl⟩
  | @aborted _ _ t _ storage o _ _ _ ih =>
    have hf := o.frame_undone (t := t.withStorage storage) ih.id
    rw [hf]
    exact ⟨rfl, rfl, rfl, rfl, rfl, rfl⟩
  | pay => exact .refl _
  | occupied => exact .refl _
  | start _ _ _ _ ih => exact ih
  | refused moved _ ih => exact (Frame.same_transition moved).trans ih
  | failed moved _ admits moved' _ ih ih' =>
    exact (((Frame.same_transition moved).trans ih).trans admits.same).trans
      ((Frame.same_transition moved').trans ih')
  | finished moved _ admits moved' _ moved'' ih ih' =>
    exact ((((Frame.same_transition moved).trans ih).trans admits.same).trans
      ((Frame.same_transition moved').trans ih')).trans (Frame.same_transition moved'')

/-- A frame that has bound its request and begins to execute is the one it was. -/
theorem Frame.Same.entered {env : Environment} {r : Request} {s t u : Site} {f g : Frame} {b : Bool}
    (moved : s.frame.transition .binding = .ok f)
    (bind : Run (.binding env r) { s with frame := f } none t) (admits : t.Admits env r b u)
    (moved' : u.frame.transition .executing = .ok g) : s.frame.Same g :=
  (((Frame.same_transition moved).trans bind.same).trans admits.same).trans
    (Frame.same_transition moved')

/-- Only the beginning and the end of its life change the phase of a frame. -/
theorem Run.phase {p : Place} {s t : Site} {e : Option Fault} (h : Run p s e t)
    (hp : ∀ env r, p ≠ .frame env r) : t.frame.phase = s.frame.phase := by
  induction h with
  | trans _ _ ih ih' => exact (ih' hp).trans (ih hp)
  | invoke _ _ _ _ ih => exact ih (fun _ _ h => by cases h)
  | guarded _ _ _ _ _ ih => exact ih (fun _ _ h => by cases h)
  | committed o h ended =>
    have hf := congrArg Frame.phase (o.frame_committed h.same.id ended)
    exact hf
  | passed o h ended | caught _ _ o h ended =>
    have hf := congrArg Frame.phase (o.frame_undone ((Site.id_revert ended).trans h.same.id))
    exact hf
  | @aborted _ _ t _ storage o h _ _ =>
    have hf := congrArg Frame.phase (o.frame_undone (t := t.withStorage storage) h.same.id)
    exact hf
  | start _ _ _ _ ih => exact ih (fun _ _ h => by cases h)
  | refused => exact absurd rfl (hp _ _)
  | failed => exact absurd rfl (hp _ _)
  | finished => exact absurd rfl (hp _ _)
  | _ => rfl

/-! ## The storage -/

/-- A run writes to the topmost layer only. -/
theorem Run.above {p : Place} {s t : Site} {e : Option Fault} (h : Run p s e t)
    (hs : s.world.storage.layers ≠ []) : s.world.storage.Above t.world.storage := by
  induction h with
  | trans _ _ ih ih' => exact (ih hs).trans (ih' (ih hs).layers_ne)
  | write _ h => exact Storage.above_updateTop (Storage.write_eq_ok h).1
  | destroy _ _ h => exact Storage.above_transfer hs h
  | invoke _ _ _ _ ih => exact ih hs
  | guarded _ _ _ _ _ ih => exact ih hs
  | send _ _ _ h => exact Storage.above_transfer hs h
  | committed o _ ended ih =>
    obtain ⟨d, storage, f, hc, -, rfl, -⟩ := Site.commitTo_eq ended
    exact Storage.above_commit_snapshot hs (ih (List.cons_ne_nil _ _)) hc
  | @passed _ s _ _ _ _ _ o _ ended ih | @caught _ s _ _ _ _ _ _ _ o _ ended ih =>
    obtain ⟨f, g, storage, -, hr, -, -, rfl⟩ := Site.revert_eq ended
    have hst : storage = s.world.storage :=
      Storage.rollback_above_snapshot (ih (List.cons_ne_nil _ _)) hr
    show s.world.storage.Above storage
    rw [hst]
    exact .refl hs
  | @aborted _ s _ _ storage o _ _ ended ih =>
    have hst : storage = s.world.storage :=
      Storage.rollback_above_snapshot (ih (List.cons_ne_nil _ _)) ended
    show s.world.storage.Above storage
    rw [hst]
    exact .refl hs
  | pay _ _ _ h => exact Storage.above_transfer hs h
  | start _ _ _ _ ih => exact ih hs
  | refused _ _ ih => exact ih hs
  | failed _ _ admits _ _ ih ih' | finished _ _ admits _ _ _ ih ih' =>
    have bound := admits.storage ▸ ih hs
    exact bound.trans (ih' bound.layers_ne)
  | _ => exact .refl hs

/-! ## The locks -/

/-- `ls` are the locks `l` and those of `tokens` on top, none of which was taken
before. -/
structure Locks.Taken (l : Locks) (tokens : List LockToken) (ls : Locks) : Prop where
  locks : ls = l ++ tokens.map (·.address)
  held : ∀ t ∈ tokens, t.held = true
  free : ∀ t ∈ tokens, t.address ∉ l
  nodup : (tokens.map (·.address)).Nodup

namespace Locks.Taken

theorem nil (l : Locks) : Taken l [] l where
  locks := (List.append_nil l).symm
  held := fun _ h => nomatch h
  free := fun _ h => nomatch h
  nodup := List.nodup_nil

theorem single {l : Locks} {a : Address} (h : a ∉ l) : Taken l [⟨a, true⟩] (l ++ [a]) where
  locks := rfl
  held := fun t ht => by rw [List.mem_singleton.1 ht]
  free := fun t ht => by rw [List.mem_singleton.1 ht]; exact h
  nodup := by simp

theorem append {l ls ls' : Locks} {ts ts' : List LockToken} (h : Taken l ts ls)
    (h' : Taken ls ts' ls') : Taken l (ts ++ ts') ls' where
  locks := by rw [h'.locks, h.locks, List.append_assoc, List.map_append]
  held := fun t ht => (List.mem_append.1 ht).elim (h.held t) (h'.held t)
  free := fun t ht => (List.mem_append.1 ht).elim (h.free t) fun ht' hl =>
    h'.free t ht' (h.locks ▸ List.mem_append_left _ hl)
  nodup := by
    rw [List.map_append, List.nodup_append]
    refine ⟨h.nodup, h'.nodup, ?_⟩
    intro a ha b hb hab
    obtain ⟨t, ht, rfl⟩ := List.mem_map.1 hb
    exact h'.free t ht (h.locks ▸ List.mem_append_right _ (hab ▸ ha))

theorem releaseAll {l ls : Locks} {ts : List LockToken} (h : Taken l ts ls) :
    ls.releaseAll ts = l := by
  rw [h.locks]
  obtain ⟨-, held, free, nodup⟩ := h
  unfold Locks.releaseAll
  induction ts with
  | nil => exact List.append_nil l
  | cons t rest ih =>
    rw [List.map_cons, List.nodup_cons] at nodup
    have hl : ∀ b ∈ l, b ≠ t.address := fun b hb hbt =>
      free t List.mem_cons_self (hbt ▸ hb)
    have hr : ∀ b ∈ rest.map (·.address), b ≠ t.address := fun b hb hbt => nodup.1 (hbt ▸ hb)
    have hu : (Locks.release (l ++ (t :: rest).map (·.address)) t).2 =
        l ++ rest.map (·.address) := by
      unfold Locks.release Locks.unlock
      rw [if_pos (held t List.mem_cons_self)]
      show List.filter _ _ = _
      rw [List.map_cons, List.filter_append, List.filter_cons_of_neg (by simp)]
      rw [List.filter_eq_self.2 fun b hb => decide_eq_true (hl b hb),
        List.filter_eq_self.2 fun b hb => decide_eq_true (hr b hb)]
    rw [List.foldl_cons, hu]
    exact ih (fun t ht => held t (List.mem_cons_of_mem _ ht))
      (fun t ht => free t (List.mem_cons_of_mem _ ht)) nodup.2

end Locks.Taken

theorem Site.locks_leave {s t : Site} {parent : Frame} {l : Locks}
    (h : l.Taken t.frame.tokens t.world.locks) : (s.leave t parent).world.locks = l :=
  h.releaseAll

/-- The tokens and the locks of a callee survive its end, until it is let go. -/
theorem Site.tokens_commitTo {t t' : Site} {parent parent' : Frame}
    (h : t.commitTo parent = .ok (t', parent')) :
    t'.frame.tokens = t.frame.tokens ∧ t'.world.locks = t.world.locks := by
  obtain ⟨d, storage, f, -, hf, rfl, -⟩ := Site.commitTo_eq h
  have htok := Frame.tokens_transition hf
  exact ⟨htok, rfl⟩

theorem Site.tokens_revert {t t' : Site} {c : Cause} {p : Bool} {o : Outcome}
    (h : t.revert c p = .ok (o, t')) :
    t'.frame.tokens = t.frame.tokens ∧ t'.world.locks = t.world.locks := by
  obtain ⟨f, g, storage, hf, -, hg, -, rfl⟩ := Site.revert_eq h
  have hdone := Frame.tokens_transition hg
  have hback := Frame.tokens_transition hf
  exact ⟨hdone.trans hback, rfl⟩

/-- From `s` to `t` a frame has added the locks it holds until it ends, and inside its
life none. -/
def Site.Holds (p : Place) (s t : Site) : Prop :=
  ∃ ts, t.frame.tokens = s.frame.tokens ++ ts ∧ s.world.locks.Taken ts t.world.locks ∧
    (p.Inner → ts = [])

theorem Site.Holds.released {p : Place} {s t : Site} (hl : t.world.locks = s.world.locks)
    (ht : t.frame.tokens = s.frame.tokens) : s.Holds p t :=
  ⟨[], ht.trans (List.append_nil _).symm, hl ▸ .nil _, fun _ => rfl⟩

theorem Site.Holds.inner {p : Place} [inner : p.Inner] {s t : Site} (h : s.Holds p t) :
    t.world.locks = s.world.locks ∧ t.frame.tokens = s.frame.tokens := by
  obtain ⟨ts, htok, htaken, hnil⟩ := h
  cases hnil inner
  exact ⟨htaken.locks.trans (List.append_nil _), htok.trans (List.append_nil _)⟩

/-- What a frame holds once it was admitted. -/
def Request.tokens (r : Request) (guarded : Bool) : List LockToken :=
  if guarded then [⟨r.storageAddress, true⟩] else []

theorem Site.Admits.taken {env : Environment} {r : Request} {s t : Site} {b : Bool}
    (h : s.Admits env r b t) : t.frame.tokens = s.frame.tokens ++ r.tokens b ∧
      s.world.locks.Taken (r.tokens b) t.world.locks := by
  cases h with
  | freely => exact ⟨(List.append_nil _).symm, .nil _⟩
  | locking _ _ free => exact ⟨rfl, .single free⟩

/-- A frame that was admitted holds its own lock, and no other. -/
theorem Site.Admits.holds {env : Environment} {r : Request} {s t u v : Site} {f g : Frame}
    {b : Bool} (moved : s.frame.transition .binding = .ok f)
    (bind : Site.Holds (.binding env r) { s with frame := f } t) (admits : t.Admits env r b u)
    (moved' : u.frame.transition .executing = .ok g)
    (exec : Site.Holds (.executing env r) { u with frame := g } v) :
    v.frame.tokens = s.frame.tokens ++ r.tokens b ∧
      s.world.locks.Taken (r.tokens b) v.world.locks := by
  obtain ⟨hl, ht⟩ := bind.inner
  obtain ⟨hl', ht'⟩ := exec.inner
  obtain ⟨htok, htaken⟩ := admits.taken
  have hmoved := Frame.tokens_transition moved
  have hmoved' := Frame.tokens_transition moved'
  simp only at hl ht hl' ht'
  rw [ht', hmoved', htok, ht, hmoved, hl', ← hl]
  exact ⟨rfl, htaken⟩

theorem Run.locks {p : Place} {s t : Site} {e : Option Fault} (h : Run p s e t) :
    Site.Holds p s t := by
  induction h with
  | trans _ _ ih ih' => exact .released (ih'.inner.1.trans ih.inner.1) (ih'.inner.2.trans ih.inner.2)
  | invoke _ _ _ _ ih => exact .released ih.inner.1 ih.inner.2
  | @guarded _ s _ _ _ t _ _ _ free _ ih =>
    have hl : t.world.locks = s.world.locks ++ [s.frame.ctx.self] := ih.inner.1
    have hu : (Site.unlock { t with locals := s.locals } [⟨s.frame.ctx.self, true⟩]).world.locks =
        s.world.locks := by
      show (Locks.release t.world.locks ⟨s.frame.ctx.self, true⟩).2 = _
      rw [hl]
      exact Locks.unlock_append_of_not_mem free
    exact .released hu ih.inner.2
  | @committed _ s t t' parent o h ended ih =>
    obtain ⟨ts, htok, htaken, -⟩ := ih
    obtain ⟨htok', hlocks⟩ := Site.tokens_commitTo ended
    have htokens := congrArg Frame.tokens (o.frame_committed h.same.id ended)
    have hleft : (o.caller.leave t' parent).world.locks = s.world.locks :=
      Site.locks_leave (by rw [htok', hlocks, htok]; exact htaken)
    exact .released hleft htokens
  | @passed _ s t t' _ _ _ o h ended ih | @caught _ s t t' _ _ _ _ _ o h ended ih =>
    obtain ⟨ts, htok, htaken, -⟩ := ih
    obtain ⟨htok', hlocks⟩ := Site.tokens_revert ended
    have htokens := congrArg Frame.tokens (o.frame_undone ((Site.id_revert ended).trans h.same.id))
    have hleft : (o.caller.leave t' o.parent).world.locks = s.world.locks :=
      Site.locks_leave (by rw [htok', hlocks, htok]; exact htaken)
    exact .released hleft htokens
  | @aborted _ s t _ storage o h _ _ ih =>
    obtain ⟨ts, htok, htaken, -⟩ := ih
    have htokens := congrArg Frame.tokens (o.frame_undone (t := t.withStorage storage) h.same.id)
    have hleft : (o.caller.leave (t.withStorage storage) o.parent).world.locks = s.world.locks :=
      Site.locks_leave (t := t.withStorage storage) (htok ▸ htaken)
    exact .released hleft htokens
  | start _ _ _ _ ih => exact .released ih.inner.1 ih.inner.2
  | refused moved _ ih =>
    exact .released ih.inner.1 (ih.inner.2.trans (Frame.tokens_transition moved))
  | failed moved _ admits moved' _ ih ih' =>
    obtain ⟨htok, htaken⟩ := admits.holds moved ih moved' ih'
    exact ⟨_, htok, htaken, fun inner => absurd rfl (inner.not_frame _ _)⟩
  | finished moved _ admits moved' _ moved'' ih ih' =>
    obtain ⟨htok, htaken⟩ := admits.holds moved ih moved' ih'
    exact ⟨_, (Frame.tokens_transition moved'').trans htok, htaken,
      fun inner => absurd rfl (inner.not_frame _ _)⟩
  | _ => exact .released rfl rfl

end ContractVM
