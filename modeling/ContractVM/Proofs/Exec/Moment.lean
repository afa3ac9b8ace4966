/-
The moments of a run, and who holds the locks at each of them.

`Run` tells where code can get to and forgets what happened on the way, above all
inside callees.  `Moment p s K q e u` says that code at the place `p`, which began
at the site `s`, is at some moment at the place `q` and the site `u`, however deep
in calls and invocations that is; `K` is the stack of activations between the two,
the innermost first, and `e` the fault that is on its way there, if any.

No step of a run goes unseen (`Run.seen`): every trail between that of the first
site and that of the last one is the trail of a moment.  At every moment the locks
are those that were there before and those of the guarded activations on the stack,
which are all different (`Moment.locks`).  A failure that blames a lock therefore
comes from a body that asks for the lock of an activation that still runs
(`Run.blames`), and never from a frame that takes its own.

A frame is guarded if the function or fallback that it was bound to is declared as not
reentrant (`Site.Enters.guarded_eq`), and such a one executes alone on its storage
(`Moment.alone`).
-/
import ContractVM.Proofs.Exec.Kept

namespace ContractVM

/-- Code that runs on the storage of `self`: a frame that was admitted to its entry
point, or a function that was invoked.  If it is guarded, it holds the lock of
`self`. -/
structure Activation where
  self : Address
  guarded : Bool
deriving Repr, DecidableEq

namespace Activation

/-- The storages on which a stack has guarded activations, from the innermost on. -/
def locked (K : List Activation) : List Address := (K.filter (·.guarded)).map (·.self)

/-- The locks of a stack in the order in which they were taken. -/
def tokens (K : List Activation) : List LockToken := (locked K).reverse.map fun a => ⟨a, true⟩

theorem tokens_append (K K' : List Activation) : tokens (K ++ K') = tokens K' ++ tokens K := by
  unfold tokens locked
  rw [List.filter_append, List.map_append, List.reverse_append, List.map_append]

theorem tokens_request (r : Request) (b : Bool) : tokens [⟨r.storageAddress, b⟩] = r.tokens b := by
  cases b <;> rfl

theorem map_tokens (K : List Activation) :
    (tokens K).map (·.address) = (locked K).reverse := by
  unfold tokens
  rw [List.map_map]
  exact List.map_id _

end Activation

/-! ## Moments -/

/-- A frame that began at `s` has bound its request and begins to execute. -/
inductive Site.Enters (env : Environment) (r : Request) (s : Site) : Bool → Site → Prop
  | mk {f g t u b} (moved : s.frame.transition .binding = .ok f)
    (bind : Run (.binding env r) { s with frame := f } none t) (admits : t.Admits env r b u)
    (moved' : u.frame.transition .executing = .ok g) : Enters env r s b { u with frame := g }

/-- The end of a frame whose code stopped at `t`, until its caller lets it go. -/
inductive Site.Closes (t : Site) : Site → Prop
  | committing {f} (moved : t.frame.transition .committing = .ok f) : Closes t { t with frame := f }
  | merged {f g} (storage : Storage) (ends : List Address)
    (moved : t.frame.transition .committing = .ok f)
    (done : { f with terminations := ends, pending := [] }.transition .done = .ok g) :
    Closes t (Site.note { t.withStorage storage with frame := g } (.committed g.id g.meter.left))
  | reverted {c p out u} (ended : t.revert c p = .ok (out, u)) : Closes t u
  | undone {storage} (ended : t.world.storage.rollback = .ok storage) :
    Closes t (t.withStorage storage)

inductive Moment : Place → Site → List Activation → Place → Option Fault → Site → Prop
  | now {p : Place} {s e t} [p.Inner] (h : Run p s e t) : Moment p s [] p e t
  | later {p : Place} {s t K q e u} [p.Inner] (h : Run p s none t) (rest : Moment p t K q e u) :
    Moment p s K q e u
  -- In a body
  | invoke {sc s f args K q e u} (fn : String) (found : Exec.invocable sc fn = .ok f)
    (unguarded : f.item.nonReentrant = false)
    (h : Moment (.body (sc.inner f args)) { s with locals := ∅ } K q e u) :
    Moment (.body sc) s (K ++ [⟨s.frame.ctx.self, false⟩]) q e u
  | guarded {sc s f args K q e u} (fn : String) (found : Exec.invocable sc fn = .ok f)
    (guarded : f.item.nonReentrant = true) (free : s.frame.ctx.self ∉ s.world.locks)
    (h : Moment (.body (sc.inner f args)) { s.lock s.frame.ctx.self with locals := ∅ } K q e u) :
    Moment (.body sc) s (K ++ [⟨s.frame.ctx.self, true⟩]) q e u
  | call {sc s K q e u} (o : Opening sc s) (h : Moment (.frame sc.env o.request) o.site K q e u) :
    Moment (.body sc) s K q e u
  -- While executing
  | start {env r s c b sc K q e u} (found : env.registry.find? r.codeAddress = some c)
    (bound : c.bind r = .ok b) (entered : sc ∈ b.scopes env c)
    (h : Moment (.body sc) { s with locals := ∅ } K q e u) : Moment (.executing env r) s K q e u
  -- In the life of a frame
  | opened {env r s} : Moment (.frame env r) s [] (.frame env r) none s
  | bind {env r s f K q e u} (moved : s.frame.transition .binding = .ok f)
    (h : Moment (.binding env r) { s with frame := f } K q e u) : Moment (.frame env r) s K q e u
  | execute {env r s t b K q e u} (entered : s.Enters env r b t)
    (h : Moment (.executing env r) t K q e u) :
    Moment (.frame env r) s (K ++ [⟨r.storageAddress, b⟩]) q e u
  | refused {env r s f e t u} (moved : s.frame.transition .binding = .ok f)
    (bind : Run (.binding env r) { s with frame := f } (some e) t) (closes : t.Closes u) :
    Moment (.frame env r) s [] (.frame env r) (some e) u
  | ended {env r s t b e v u} (entered : s.Enters env r b t) (exec : Run (.executing env r) t e v)
    (closes : v.Closes u) : Moment (.frame env r) s [⟨r.storageAddress, b⟩] (.frame env r) e u

/-! ## Parts of a life -/

section Life

variable {env : Environment} {r : Request} {s t u : Site} {b : Bool}

theorem Site.Enters.taken (h : s.Enters env r b t) :
    t.frame.tokens = s.frame.tokens ++ r.tokens b ∧
      s.world.locks.Taken (r.tokens b) t.world.locks := by
  obtain @⟨f, g, v, w, _, moved, bind, admits, moved'⟩ := h
  have hbound : v.world.locks = s.world.locks ∧ v.frame.tokens = f.tokens := bind.locks.inner
  obtain ⟨htokens, htaken⟩ := admits.taken
  constructor
  · show g.tokens = _
    rw [Frame.tokens_transition moved', htokens, hbound.2, Frame.tokens_transition moved]
  · rw [hbound.1] at htaken
    exact htaken

/-- A frame is a guarded activation if it was bound to what is declared as not reentrant. -/
theorem Site.Enters.guarded_eq (h : s.Enters env r b t) {c : Contract} {entry : Bound}
    (found : env.registry.find? r.codeAddress = some c) (bound : c.bind r = .ok entry) :
    b = entry.nonReentrant := by
  rw [← Contract.takesLock_of_bind bound]
  obtain ⟨-, -, admits, -⟩ := h
  cases admits with
  | freely found' unguarded =>
    cases found'.symm.trans found
    exact unguarded.symm
  | locking found' guarded =>
    cases found'.symm.trans found
    exact guarded.symm

theorem Site.Closes.locks (h : t.Closes u) : u.world.locks = t.world.locks := by
  cases h with
  | committing | merged | undone => rfl
  | reverted ended => exact (Site.tokens_revert ended).2

/-- The three ways through the life of a frame. -/
theorem Run.frame_cases {e : Option Fault} (h : Run (.frame env r) s e t) :
    (∃ f c, s.frame.transition .binding = .ok f ∧
      Run (.binding env r) { s with frame := f } (some c) t ∧ e = some c) ∨
    (∃ b u c, s.Enters env r b u ∧ Run (.executing env r) u (some c) t ∧ e = some c) ∨
    ∃ b u v f, s.Enters env r b u ∧ Run (.executing env r) u none v ∧
      v.frame.transition .committing = .ok f ∧ t = { v with frame := f } ∧ e = none := by
  cases h with
  | refl | trans | raise | stuck | spend =>
    exact absurd rfl (Place.Inner.not_frame (p := .frame env r) env r)
  | refused moved bind => exact .inl ⟨_, _, moved, bind, rfl⟩
  | failed moved bind admits moved' exec =>
    exact .inr (.inl ⟨_, _, _, .mk moved bind admits moved', exec, rfl⟩)
  | finished moved bind admits moved' exec moved'' =>
    exact .inr (.inr ⟨_, _, _, _, .mk moved bind admits moved', exec, moved'', rfl, rfl⟩)

/-- A frame holds its own lock at most. -/
theorem Run.frame_tokens {e : Option Fault} (h : Run (.frame env r) s e t)
    (fresh : s.frame.tokens = []) : t.frame.tokens.length ≤ 1 := by
  have hone : ∀ b v, s.Enters env r b v → v.frame.tokens.length ≤ 1 := by
    intro b v entered
    rw [entered.taken.1, fresh]
    cases b with
    | false => exact Nat.zero_le 1
    | true => exact Nat.le_refl 1
  rcases h.frame_cases with ⟨f, c, moved, bind, -⟩ | ⟨b, u, c, entered, exec, -⟩ |
    ⟨b, u, v, f, entered, exec, moved, rfl, -⟩
  · have htokens : t.frame.tokens = f.tokens := bind.locks.inner.2
    rw [htokens, Frame.tokens_transition moved, fresh]
    exact Nat.zero_le 1
  · rw [exec.locks.inner.2]
    exact hone b u entered
  · show f.tokens.length ≤ 1
    rw [Frame.tokens_transition moved, exec.locks.inner.2]
    exact hone b u entered

end Life

/-! ## Nothing goes unseen -/

/-- Each trail between `lo` and `hi` is that of a moment. -/
def Seen (p : Place) (s : Site) (lo hi : Trail) : Prop :=
  ∀ tr, lo <:+ tr → tr <:+ hi → ∃ K q e u, Moment p s K q e u ∧ u.world.trail = tr

namespace Seen

variable {p p' : Place} {s s' : Site} {lo mid hi : Trail} {K : List Activation} {q : Place}
  {e : Option Fault} {u : Site}

theorem here (h : Moment p s K q e u) : Seen p s u.world.trail u.world.trail :=
  fun _ hlo hhi => ⟨K, q, e, u, h, hlo.eq_of_length_le hhi.length_le⟩

theorem lift (hlift : ∀ K q e u, Moment p s K q e u → ∃ K', Moment p' s' K' q e u)
    (h : Seen p s lo hi) : Seen p' s' lo hi := by
  intro tr hlo hhi
  obtain ⟨K, q, e, u, hu, htrail⟩ := h tr hlo hhi
  obtain ⟨K', hu'⟩ := hlift K q e u hu
  exact ⟨K', q, e, u, hu', htrail⟩

theorem append (h : Seen p s lo mid) (h' : Seen p s mid hi) (hmid : mid <:+ hi) :
    Seen p s lo hi := by
  intro tr hlo hhi
  rcases List.suffix_or_suffix_of_suffix hmid hhi with hge | hle
  · exact h' tr hge hhi
  · exact h tr hlo hle

theorem next {step : Step} (h : Seen p s lo mid) (h' : Seen p s (step :: mid) hi)
    (hmid : step :: mid <:+ hi) : Seen p s lo hi := by
  intro tr hlo hhi
  rcases List.suffix_or_suffix_of_suffix hmid hhi with hge | hle
  · exact h' tr hge hhi
  · rcases List.suffix_cons_iff.1 hle with rfl | hle
    · exact h' _ (List.suffix_refl _) hhi
    · exact h tr hlo hle

theorem admitted {env : Environment} {r : Request} {t : Site} {b : Bool}
    (h : Seen p s lo t.world.trail) (admits : t.Admits env r b u) (h' : Seen p s u.world.trail hi)
    (hsuffix : u.world.trail <:+ hi) : Seen p s lo hi := by
  cases admits with
  | freely => exact h.append h' hsuffix
  | locking => exact h.next h' hsuffix

/-- One more step, which ends at a moment. -/
theorem step {step : Step} (h : Seen p s lo mid) (hu : Moment p s K q e u)
    (htrail : u.world.trail = step :: mid) : Seen p s lo u.world.trail := by
  have last : Seen p s (step :: mid) u.world.trail := htrail ▸ here hu
  have hsuffix : step :: mid <:+ u.world.trail := htrail ▸ List.suffix_refl _
  exact h.next last hsuffix

end Seen

theorem Site.Admits.trail_suffix {env : Environment} {r : Request} {s t : Site} {b : Bool}
    (h : s.Admits env r b t) : s.world.trail <:+ t.world.trail := by
  cases h with
  | freely => exact List.suffix_refl _
  | locking => exact List.suffix_cons _ _

theorem Site.trail_commitTo {t t' : Site} {parent parent' : Frame}
    (h : t.commitTo parent = .ok (t', parent')) : ∃ step, t'.world.trail = step :: t.world.trail := by
  obtain ⟨d, storage, f, -, -, rfl, -⟩ := Site.commitTo_eq h
  exact ⟨_, rfl⟩

theorem Site.trail_revert {t t' : Site} {c : Cause} {p : Bool} {out : Outcome}
    (h : t.revert c p = .ok (out, t')) : ∃ step, t'.world.trail = step :: t.world.trail := by
  obtain ⟨f, g, storage, -, -, -, -, rfl⟩ := Site.revert_eq h
  exact ⟨_, rfl⟩

theorem Opening.trail_suffix {sc : Scope} {s t : Site} (o : Opening sc s) (parent : Frame)
    (h : o.site.world.trail <:+ t.world.trail) :
    s.world.trail <:+ (o.caller.leave t parent).world.trail :=
  ((List.suffix_cons _ _).trans h).trans (List.suffix_append _ _)

theorem Run.trail_suffix {p : Place} {s t : Site} {e : Option Fault} (h : Run p s e t) :
    s.world.trail <:+ t.world.trail := by
  induction h with
  | trans _ _ ih ih' => exact ih.trans ih'
  | boundary | emit | destroy | jump | swallow => exact List.suffix_cons _ _
  | invoke _ _ _ _ ih => exact ih
  | guarded _ _ _ _ _ ih => exact ((List.suffix_cons _ _).trans ih).trans (List.suffix_append _ _)
  | @committed _ _ _ t' parent o _ ended ih =>
    obtain ⟨step, htrail⟩ := Site.trail_commitTo ended
    exact o.trail_suffix (t := t') parent (htrail ▸ ih.trans (List.suffix_cons _ _))
  | @passed _ _ _ t' _ _ _ o _ ended ih =>
    obtain ⟨step, htrail⟩ := Site.trail_revert ended
    exact o.trail_suffix (t := t') o.parent (htrail ▸ ih.trans (List.suffix_cons _ _))
  | @caught _ _ _ t' _ _ _ _ _ o _ ended ih =>
    obtain ⟨step, htrail⟩ := Site.trail_revert ended
    exact (o.trail_suffix (t := t') o.parent (htrail ▸ ih.trans (List.suffix_cons _ _))).trans
      (List.suffix_cons _ _)
  | aborted o _ _ _ ih => exact o.trail_suffix _ ih
  | start _ _ _ _ ih => exact ih
  | refused _ _ ih => exact ih
  | failed _ _ admits _ _ ih ih' => exact (ih.trans admits.trail_suffix).trans ih'
  | finished _ _ admits _ _ _ ih ih' => exact (ih.trans admits.trail_suffix).trans ih'
  | _ => exact List.suffix_refl _

/-! ### Callees -/

section Callees

variable {sc : Scope} {s t t' : Site} {env : Environment} {r : Request}

/-- A frame that committed is still on the stack when it is merged. -/
theorem Moment.of_commitTo (h : Run (.frame env r) s none t) {parent parent' : Frame}
    (ended : t.commitTo parent = .ok (t', parent')) :
    ∃ K, Moment (.frame env r) s K (.frame env r) none t' := by
  obtain ⟨d, storage, g, -, done, rfl, -⟩ := Site.commitTo_eq ended
  rcases h.frame_cases with ⟨f, c, -, -, he⟩ | ⟨b, u, c, -, -, he⟩ |
    ⟨b, u, v, f, entered, exec, moved, rfl, -⟩
  · cases he
  · cases he
  · exact ⟨_, .ended entered exec (.merged storage [] moved done)⟩

/-- A frame that failed is still on the stack when it is undone. -/
theorem Moment.of_closes {c : Fault} (h : Run (.frame env r) s (some c) t) (closes : t.Closes t') :
    ∃ K, Moment (.frame env r) s K (.frame env r) (some c) t' := by
  rcases h.frame_cases with ⟨f, c', moved, bind, he⟩ | ⟨b, u, c', entered, exec, he⟩ |
    ⟨b, u, v, f, -, -, -, -, he⟩
  · cases he
    exact ⟨_, .refused moved bind closes⟩
  · cases he
    exact ⟨_, .ended entered exec closes⟩
  · cases he

variable {e : Option Fault}

/-- A frame that was opened and is still on the stack at `t`. -/
theorem Opening.seen (o : Opening sc s)
    (h : Seen (.frame sc.env o.request) o.site o.site.world.trail t.world.trail)
    (hsuffix : o.site.world.trail <:+ t.world.trail) :
    Seen (.body sc) s s.world.trail t.world.trail :=
  (Seen.here (.now .refl)).next (h.lift fun _ _ _ _ hu => ⟨_, .call o hu⟩) hsuffix

/-- When its caller lets go of a frame, it has at most one lock to release. -/
theorem Seen.left {u : Site} {K : List Activation} {q : Place} {tokens : List LockToken}
    (h : Seen (.body sc) s s.world.trail t.world.trail) (hu : Moment (.body sc) s K q e u)
    (htrail : u.world.trail = Trail.releases t.frame.id tokens ++ t.world.trail)
    (hone : tokens.length ≤ 1) : Seen (.body sc) s s.world.trail u.world.trail := by
  match tokens with
  | [] => exact htrail ▸ h
  | [l] => exact h.step hu htrail
  | _ :: _ :: _ => simp at hone

end Callees

/-- No step of a run goes unseen. -/
theorem Run.seen {p : Place} {s t : Site} {e : Option Fault} (h : Run p s e t) :
    Seen p s s.world.trail t.world.trail := by
  induction h with
  | trans first rest ih ih' =>
    exact ih.append (ih'.lift fun _ _ _ _ hu => ⟨_, .later first hu⟩) rest.trail_suffix
  | boundary => exact (Seen.here (.now .refl)).step (.now .boundary) rfl
  | emit may name fields => exact (Seen.here (.now .refl)).step (.now (.emit may name fields)) rfl
  | destroy may valid h => exact (Seen.here (.now .refl)).step (.now (.destroy may valid h)) rfl
  | jump fn h => exact (Seen.here (.now .refl)).step (.now (.jump fn h)) rfl
  | swallow fn c => exact (Seen.here (.now .refl)).step (.now (.swallow fn c)) rfl
  | invoke fn found unguarded _ ih =>
    exact ih.lift fun _ _ _ _ hu => ⟨_, .invoke fn found unguarded hu⟩
  | guarded fn found guarded free inner ih =>
    have hinner := ih.lift fun _ _ _ _ hu => ⟨_, .guarded fn found guarded free hu⟩
    exact ((Seen.here (.now .refl)).next hinner inner.trail_suffix).step
      (.now (.guarded fn found guarded free inner)) rfl
  | @committed _ s t t' parent o inner ended ih =>
    obtain ⟨K, hu⟩ := Moment.of_commitTo inner ended
    obtain ⟨step, htrail⟩ := Site.trail_commitTo ended
    have hone := inner.frame_tokens rfl
    rw [← (Site.tokens_commitTo ended).1] at hone
    exact ((o.seen ih inner.trail_suffix).step (.call o hu) htrail).left
      (.now (.committed o inner ended)) rfl hone
  | @passed _ s t t' c _ left o inner ended ih =>
    obtain ⟨K, hu⟩ := Moment.of_closes inner (.reverted ended)
    obtain ⟨step, htrail⟩ := Site.trail_revert ended
    have hone := inner.frame_tokens rfl
    rw [← (Site.tokens_revert ended).1] at hone
    exact ((o.seen ih inner.trail_suffix).step (.call o hu) htrail).left
      (.now (.passed o inner ended)) rfl hone
  | @caught _ s t t' c _ left fn locals o inner ended ih =>
    obtain ⟨K, hu⟩ := Moment.of_closes inner (.reverted ended)
    obtain ⟨step, htrail⟩ := Site.trail_revert ended
    have hone := inner.frame_tokens rfl
    rw [← (Site.tokens_revert ended).1] at hone
    exact (((o.seen ih inner.trail_suffix).step (.call o hu) htrail).left
      (.now (.passed o inner ended)) rfl hone).step (.now (.caught fn locals o inner ended)) rfl
  | aborted o inner foreign ended ih =>
    exact (o.seen ih inner.trail_suffix).left (.now (.aborted o inner foreign ended)) rfl
      (inner.frame_tokens rfl)
  | start found bound entered _ ih =>
    exact ih.lift fun _ _ _ _ hu => ⟨_, .start found bound entered hu⟩
  | refused moved _ ih => exact ih.lift fun _ _ _ _ hu => ⟨_, .bind moved hu⟩
  | failed moved bind admits moved' exec ih ih' =>
    exact .admitted (ih.lift fun _ _ _ _ hu => ⟨_, .bind moved hu⟩) admits
      (ih'.lift fun _ _ _ _ hu => ⟨_, .execute (.mk moved bind admits moved') hu⟩) exec.trail_suffix
  | finished moved bind admits moved' exec _ ih ih' =>
    exact .admitted (ih.lift fun _ _ _ _ hu => ⟨_, .bind moved hu⟩) admits
      (ih'.lift fun _ _ _ _ hu => ⟨_, .execute (.mk moved bind admits moved') hu⟩) exec.trail_suffix
  | _ => exact .here (.now .refl)

/-! ## Locks -/

/-- At every moment the locks are those of before and those of the guarded activations,
which nobody else holds. -/
theorem Moment.locks {p q : Place} {s u : Site} {K : List Activation} {e : Option Fault}
    (h : Moment p s K q e u) : s.world.locks.Taken (Activation.tokens K) u.world.locks := by
  induction h with
  | now h => exact h.locks.inner.1 ▸ .nil _
  | later h _ ih => exact h.locks.inner.1 ▸ ih
  | invoke _ _ _ _ ih =>
    rw [Activation.tokens_append]
    exact ih
  | guarded _ _ _ free _ ih =>
    rw [Activation.tokens_append]
    exact (Locks.Taken.single free).append ih
  | call o _ ih => exact ih
  | start _ _ _ _ ih => exact ih
  | opened => exact .nil _
  | bind _ _ ih => exact ih
  | execute entered _ ih =>
    rw [Activation.tokens_append, Activation.tokens_request]
    exact entered.taken.2.append ih
  | refused _ bind closes =>
    rw [closes.locks, bind.locks.inner.1]
    exact .nil _
  | ended entered exec closes =>
    rw [Activation.tokens_request, closes.locks, exec.locks.inner.1]
    exact entered.taken.2

/-- In a run that finds no lock, the locks are the storages of the guarded activations, and
no storage has two of these. -/
theorem Moment.locks_of_idle {p q : Place} {s u : Site} {K : List Activation} {e : Option Fault}
    (h : Moment p s K q e u) (idle : s.world.locks = []) :
    u.world.locks = (Activation.locked K).reverse ∧ (Activation.locked K).Nodup := by
  have taken := h.locks
  rw [idle] at taken
  rw [← (List.reverse_perm _).nodup_iff, ← Activation.map_tokens]
  exact ⟨taken.locks, taken.nodup⟩

/-- While the entry point of a frame executes, this frame is the innermost activation, unless
the run is about nothing else. -/
theorem Moment.executing {p q : Place} {s u : Site} {K : List Activation} {e : Option Fault}
    (h : Moment p s K q e u) {env : Environment} {r : Request} {c : Contract} {entry : Bound}
    (hq : q = .executing env r) (found : env.registry.find? r.codeAddress = some c)
    (bound : c.bind r = .ok entry) :
    (p = .executing env r ∧ K = []) ∨ ∃ K', K = ⟨r.storageAddress, entry.nonReentrant⟩ :: K' := by
  induction h with
  | now => exact .inl ⟨hq, rfl⟩
  | later _ _ ih => exact ih hq
  | invoke _ _ _ _ ih | guarded _ _ _ _ _ ih =>
    rcases ih hq with ⟨hp, -⟩ | ⟨K', rfl⟩
    · cases hp
    · exact .inr ⟨_, rfl⟩
  | call _ _ ih | start _ _ _ _ ih | bind _ _ ih =>
    rcases ih hq with ⟨hp, -⟩ | hK
    · cases hp
    · exact .inr hK
  | opened | refused | ended => cases hq
  | execute entered _ ih =>
    rcases ih hq with ⟨hp, rfl⟩ | ⟨K', rfl⟩
    · cases hp
      exact .inr ⟨[], by rw [entered.guarded_eq found bound]; rfl⟩
    · exact .inr ⟨_, rfl⟩

/-- If an entry point that is declared as not reentrant executes, its activation is the
innermost one and guarded, and its storage has no other that is. -/
def Place.Alone (q : Place) (K : List Activation) : Prop :=
  ∀ env r c entry, q = .executing env r → env.registry.find? r.codeAddress = some c →
    c.bind r = .ok entry → entry.nonReentrant = true →
      ∃ K', K = ⟨r.storageAddress, true⟩ :: K' ∧ r.storageAddress ∉ Activation.locked K'

theorem Moment.alone {env : Environment} {r : Request} {q : Place} {s u : Site}
    {K : List Activation} {e : Option Fault} (h : Moment (.frame env r) s K q e u)
    (nodup : (Activation.locked K).Nodup) : q.Alone K := by
  intro env' r' c entry hq found bound declared
  rcases h.executing hq found bound with ⟨hp, -⟩ | ⟨K', rfl⟩
  · cases hp
  · rw [declared] at nodup ⊢
    exact ⟨K', rfl, (List.nodup_cons.1 nodup).1⟩

/-! ## Failures that blame a lock -/

/-- The lock that a request will take is free. -/
def Place.Free (p : Place) (s : Site) : Prop :=
  match p with
  | .frame env r | .binding env r => ∀ c, env.registry.find? r.codeAddress = some c →
    c.takesLock r = true → r.storageAddress ∉ s.world.locks
  | .executing .. | .body _ => True

theorem Place.Free.congr {p : Place} {s t : Site} (h : p.Free s)
    (hlocks : t.world.locks = s.world.locks) : p.Free t := by
  cases p with
  | frame env r | binding env r =>
    intro c found guarded
    rw [hlocks]
    exact h c found guarded
  | executing | body => trivial

/-- A call checks the lock that its callee is going to take. -/
theorem Opening.free {sc : Scope} {s : Site} (o : Opening sc s) :
    (Place.frame sc.env o.request).Free o.site := by
  intro c found guarded
  have hc : o.callee = c := Option.some.inj (o.found.symm.trans found)
  have hlock := o.unlocked (hc ▸ guarded)
  have hstorage : o.request.storageAddress =
      if o.spec.kind = .delegate then s.frame.ctx.self else o.target := by
    simp only [request, Exec.request, decide_eq_true_iff]
  rw [hstorage]
  exact of_decide_eq_false hlock

theorem Scope.Blocked.taken {sc : Scope} {s : Site} {a : Address} (h : sc.Blocked s a) :
    a ∈ s.world.locks := by
  cases h <;> assumption

/-- A failure that blames a lock goes back to a body that asked for a lock that was
taken. -/
theorem Run.blames {p : Place} {s t : Site} {e : Option Fault} (h : Run p s e t) {c : Cause}
    {propagated : Bool} (he : e = some (.raised c propagated)) (hc : c.kind = .reentrancyBlocked)
    (free : p.Free s) :
    ∃ K sc u a, Moment p s K (.body sc) none u ∧ sc.Blocked u a ∧ c = .alreadyEntered a := by
  induction h generalizing propagated with
  | trans first _ _ ih' =>
    obtain ⟨K, sc, u, a, hu, blocked⟩ := ih' he (free.congr first.locks.inner.1)
    exact ⟨K, sc, u, a, .later first hu, blocked⟩
  | raise c' unlocked =>
    cases he
    exact absurd hc unlocked
  | blocked h =>
    cases he
    exact ⟨[], _, _, _, .now .refl, h, rfl⟩
  | invoke fn found unguarded _ ih =>
    obtain ⟨K, sc, u, a, hu, blocked⟩ := ih he trivial
    exact ⟨_, sc, u, a, .invoke fn found unguarded hu, blocked⟩
  | guarded fn found nonReentrant unlocked _ ih =>
    obtain ⟨K, sc, u, a, hu, blocked⟩ := ih he trivial
    exact ⟨_, sc, u, a, .guarded fn found nonReentrant unlocked hu, blocked⟩
  | passed o _ _ ih =>
    cases he
    obtain ⟨K, sc, u, a, hu, blocked⟩ := ih rfl o.free
    exact ⟨K, sc, u, a, .call o hu, blocked⟩
  | aborted _ _ foreign =>
    cases he
    exact absurd rfl (foreign _ _)
  | occupied found guarded taken => exact absurd taken (free _ found guarded)
  | start found bound entered _ ih =>
    obtain ⟨K, sc, u, a, hu, blocked⟩ := ih he trivial
    exact ⟨K, sc, u, a, .start found bound entered hu, blocked⟩
  | refused moved _ ih =>
    obtain ⟨K, sc, u, a, hu, blocked⟩ := ih he free
    exact ⟨K, sc, u, a, .bind moved hu, blocked⟩
  | failed moved bind admits moved' _ _ ih' =>
    obtain ⟨K, sc, u, a, hu, blocked⟩ := ih' he trivial
    exact ⟨_, sc, u, a, .execute (.mk moved bind admits moved') hu, blocked⟩
  | _ => cases he

theorem Moment.of_binding {env : Environment} {r : Request} {p q : Place} {s u : Site}
    {K : List Activation} {e : Option Fault} (h : Moment p s K q e u) (hp : p = .binding env r) :
    q = p := by
  induction h with
  | now => rfl
  | later _ _ ih => exact ih hp
  | _ => cases hp

/-- A frame whose lock is free is admitted before it fails because of a lock. -/
theorem Run.blamed_frame {env : Environment} {r : Request} {s t : Site} {c : Cause}
    {propagated : Bool} (h : Run (.frame env r) s (some (.raised c propagated)) t)
    (hc : c.kind = .reentrancyBlocked) (free : (Place.frame env r).Free s) :
    t.frame.phase = .executing := by
  rcases h.frame_cases with ⟨f, c', moved, bind, he⟩ | ⟨b, u, c', entered, exec, he⟩ |
    ⟨b, u, v, f, -, -, -, -, he⟩
  · cases he
    obtain ⟨K, sc, u, a, hu, -, -⟩ := bind.blames rfl hc free
    exact nomatch hu.of_binding rfl
  · obtain ⟨moved, bind, admits, moved'⟩ := entered
    exact (exec.phase fun _ _ h => by cases h).trans (Frame.phase_transition moved')
  · cases he

end ContractVM
