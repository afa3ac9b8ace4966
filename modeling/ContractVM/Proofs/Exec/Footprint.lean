/-
Whose account code can touch.

A frame writes, sends and destroys in the name of the one address it acts for, whatever
code it runs and however many delegated calls lie between.  So an address is spared by
a run, in its slots and from losing value, if neither the frame at hand nor any callee
that is kept acts for it (`Run.spares`).  What a callee did that is not kept is gone with
its layer.  The one other way to lose value is to be the caller of a request that pays
for it, which happens while a frame binds.
-/
import ContractVM.Proofs.Exec.Buffers
import ContractVM.Proofs.Exec.Grounded
import ContractVM.Proofs.Storage.Total

namespace ContractVM

variable {a : Address}

/-! ## Storage -/

namespace Storage

variable {s t u : Storage} {drawn drawn' : Prop}

theorem peek?_updateTop {f : Layer → Layer} (hf : ∀ l key, (f l).slot? a key = l.slot? a key)
    (h : s.updateTop f = .ok t) (key : String) : t.peek? a key = s.peek? a key := by
  obtain ⟨p, top, below, rfl, rfl⟩ := updateTop_eq_ok h
  rw [peek?_cons, peek?_cons, hf]

theorem peek?_commit {d : Option Delta} (h : s.commit = .ok (d, t)) (key : String) :
    t.peek? a key = s.peek? a key := by
  rcases commit_eq_ok h with ⟨p, last, rfl, rfl⟩ | ⟨p, top, next, below, rfl, rfl⟩
  · show ([p.merge last].findSome? (·.slot? a key)) = ([last, p].findSome? (·.slot? a key))
    rw [List.findSome?_singleton, Layer.slot?_merge, List.findSome?_cons,
      List.findSome?_singleton]
    cases last.slot? a key <;> rfl
  · rw [peek?_cons, peek?_cons, peek?_cons, Layer.slot?_merge]
    cases top.slot? a key <;> rfl

theorem balanceOf_commit {d : Option Delta} (h : s.commit = .ok (d, t)) :
    t.balanceOf a = s.balanceOf a := by
  rw [balanceOf_eq, balanceOf_eq, balances_commit h]

theorem balanceOf_setSlot {b : Address} {key : String} {v : Value}
    (h : s.updateTop (·.setSlot b key v) = .ok t) : t.balanceOf a = s.balanceOf a := by
  rw [balanceOf_eq, balanceOf_eq, balances_setSlot h]

/-- With no layer open, only the persisted state is read. -/
theorem peek?_idle (h : s.layers = []) (key : String) : s.peek? a key = s.persisted.slot? a key := by
  unfold peek?
  rw [h, List.nil_append, List.findSome?_singleton]

theorem balanceOf_idle (h : s.layers = []) : s.balanceOf a = (s.persisted.balance? a).getD 0 := by
  unfold balanceOf
  rw [h, List.nil_append, List.findSome?_singleton]

/-- The slots of `a` read in `t` as they do in `s`, and `a` has lost nothing unless value
may have been drawn from it. -/
structure Spares (a : Address) (drawn : Prop) (s t : Storage) : Prop where
  slots : ∀ key, t.peek? a key = s.peek? a key
  balance : ¬ drawn → s.balanceOf a ≤ t.balanceOf a

namespace Spares

theorem refl (s : Storage) : Spares a drawn s s := ⟨fun _ => rfl, fun _ => Int.le_refl _⟩

theorem of_eq (h : t = s) : Spares a drawn s t := by
  rw [h]
  exact .refl s

theorem trans (h : Spares a drawn s t) (h' : Spares a drawn t u) : Spares a drawn s u where
  slots := fun key => (h'.slots key).trans (h.slots key)
  balance := fun hd => Int.le_trans (h.balance hd) (h'.balance hd)

theorem mono (h : Spares a drawn s t) (himp : drawn → drawn') : Spares a drawn' s t where
  slots := h.slots
  balance := fun hd => h.balance (mt himp hd)

theorem setSlot {b : Address} {key : String} {v : Value} (hb : b ≠ a)
    (h : s.updateTop (·.setSlot b key v) = .ok t) : Spares a drawn s t where
  slots := peek?_updateTop (fun l k => by rw [Layer.slot?_setSlot, if_neg fun hk => hb hk.1.symm]) h
  balance := fun _ => Int.le_of_eq (balanceOf_setSlot h).symm

theorem transfer {source target : Address} {amount : Int}
    (h : s.transfer source target amount = .ok t) : Spares a (source = a) s t := by
  rcases transfer_eq_ok h with ⟨-, rfl⟩ | ⟨hpos, -, paid, hpaid, ht⟩
  · exact .refl t
  · constructor
    case slots =>
      intro key
      rw [peek?_updateTop (fun _ _ => Layer.slot?_setBalance ..) ht,
        peek?_updateTop (fun _ _ => Layer.slot?_setBalance ..) hpaid]
    case balance =>
      intro hsource
      have hkept : paid.balanceOf a = s.balanceOf a := by
        rw [balanceOf_setBalance hpaid, if_neg (Ne.symm hsource)]
      by_cases ha : a = target
      · rw [balanceOf_setBalance ht, if_pos ha, ← ha, hkept]
        omega
      · have hsame : t.balanceOf a = s.balanceOf a := by
          rw [balanceOf_setBalance ht, if_neg ha, hkept]
        exact Int.le_of_eq hsame.symm

/-- What a layer of its own spares, its commit spares as well. -/
theorem commit (h : Spares a drawn s.snapshot t) {d : Option Delta} (hu : t.commit = .ok (d, u)) :
    Spares a drawn s u where
  slots := fun key => (peek?_commit hu key).trans (h.slots key)
  balance := fun hd => by
    rw [balanceOf_commit hu]
    exact h.balance hd

end Spares

end Storage

/-! ## Frames that are kept -/

namespace Trail

/-- A callee of `root` that acts for `a` is kept. -/
def KeepsFor (t : Trail) (root : Nat) (a : Address) : Prop :=
  ∃ f, (f, a) ∈ t.filterMap Step.acting? ∧ t.keeps root f = true

section Append

variable {root lo mid hi : Nat} {own : Address} {t u : Trail}
  (ht : Segment root own lo mid t) (hu : Segment root own mid hi u)

include ht hu

theorem KeepsFor.append_left (h : t.KeepsFor root a) : (u ++ t).KeepsFor root a := by
  obtain ⟨f, hf, hkeeps⟩ := h
  refine ⟨f, ?_, ?_⟩
  · rw [List.filterMap_append]
    exact List.mem_append_right _ hf
  · rw [ht.keeps_append_left hu (.inr (ht.acting _ hf))]
    exact hkeeps

theorem KeepsFor.append_right (h : u.KeepsFor root a) : (u ++ t).KeepsFor root a := by
  obtain ⟨f, hf, hkeeps⟩ := h
  refine ⟨f, ?_, ?_⟩
  · rw [List.filterMap_append]
    exact List.mem_append_left _ hf
  · rw [ht.keeps_append_right hu (.inr (hu.acting _ hf))]
    exact hkeeps

end Append

end Trail

section Around

variable {root c hi depth : Nat} {own code : Address} {budget : Int} {post t : Trail}
  {p : Option Nat}

/-- A frame that commits lasts for the address it acts for, and so do the callees it keeps. -/
theorem Closing.lasts_of_committed (closing : Closing c post) (ht : Segment c own (c + 1) hi t)
    (hp : ∀ q, p = some q → q < c) (committed : post.Committed c)
    (h : own = a ∨ t.KeepsFor c a) (depth : Nat) (code : Address) (budget : Int) :
    ∃ f, (f, a) ∈ (around post t c p depth own code budget).filterMap Step.acting? ∧ c ≤ f ∧
      (around post t c p depth own code budget).lasts p f = true := by
  rcases h with rfl | ⟨f, hf, hkeeps⟩
  · refine ⟨c, closing.mem_acting_around.2 (.inr rfl), Nat.le_refl c, ?_⟩
    rw [closing.lasts_around ht hp (.inl rfl), Trail.keeps, decide_eq_true rfl, Bool.true_or,
      decide_eq_true committed]
    rfl
  · have hrange := ht.acting _ hf
    refine ⟨f, closing.mem_acting_around.2 (.inl hf), by simp only at hrange; omega, ?_⟩
    rw [closing.lasts_around ht hp (.inr hrange), hkeeps, decide_eq_true committed]
    rfl

theorem Closing.keepsFor (closing : Closing c post) (ht : Segment c own (c + 1) hi t)
    (hroot : root < c) (committed : post.Committed c) (h : own = a ∨ t.KeepsFor c a) :
    (around post t c (some root) depth own code budget).KeepsFor root a := by
  obtain ⟨f, hf, hle, hlasts⟩ := closing.lasts_of_committed (p := some root) ht
    (fun q hq => by cases hq; exact hroot) committed h depth code budget
  refine ⟨f, hf, ?_⟩
  rw [Trail.keeps, hlasts, Bool.or_true]

end Around

/-! ## Code -/

/-- Value is drawn from `a` to pay for the request that is bound. -/
def Place.Draws (a : Address) : Place → Prop
  | .frame _ r | .binding _ r => r.transfers = true ∧ r.caller = a
  | .executing _ _ | .body _ => False

/-- Of no callee that is kept is it known that it acts for `a`, however the steps from `s` to
`t` are told. -/
def Site.Keepless (a : Address) (s t : Site) : Prop :=
  ∀ steps, Telling s t steps → ¬ steps.KeepsFor s.frame.id a

namespace Site.Keepless

variable {s t u : Site} {steps steps' : Trail}

theorem first (h : s.Keepless a u) (rest : Telling t u steps') (same : s.frame.Same t.frame) :
    s.Keepless a t := by
  intro steps first hkeeps
  have hseg := rest.segment
  rw [same.id, same.ctx] at hseg
  exact h _ (first.trans rest same) (hkeeps.append_left first.segment hseg)

theorem rest (h : s.Keepless a u) (first : Telling s t steps) (same : s.frame.Same t.frame) :
    t.Keepless a u := by
  intro steps' rest hkeeps
  have hseg := rest.segment
  rw [same.id, same.ctx] at hseg
  rw [same.id] at hkeeps
  exact h _ (first.trans rest same) (hkeeps.append_right first.segment hseg)

/-- For sites that differ in nothing that steps tell of. -/
theorem congr {s' t' : Site} (h : s'.Keepless a t') (hid : s'.frame.id = s.frame.id)
    (htell : ∀ steps, Telling s t steps → Telling s' t' steps) : s.Keepless a t := by
  intro steps told
  rw [← hid]
  exact h steps (htell steps told)

end Site.Keepless

/-- A frame that binds its request opens no other, and draws on its caller only. -/
theorem Run.spares_binding {env : Environment} {r : Request} {s t : Site} {e : Option Fault}
    (h : Run (.binding env r) s e t) :
    s.world.storage.Spares a (r.transfers = true ∧ r.caller = a) t.world.storage := by
  generalize hp : Place.binding env r = p at h
  induction h with
  | trans _ _ ih ih' => exact (ih hp).trans (ih' hp)
  | pay _ _ transfers h =>
    cases hp
    exact (Storage.Spares.transfer h).mono fun hcaller => ⟨transfers, hcaller⟩
  | refl | raise | stuck | spend | occupied => exact .refl _
  | _ => cases hp

/-- Of a frame it remains to see what it spares from where it executes. -/
theorem Run.spares_executed {env : Environment} {r : Request} {b : Bool} {s t u w : Site}
    {f g : Frame} {storage : Storage} (bind : Run (.binding env r) { s with frame := f } none t)
    (moved : s.frame.transition .binding = .ok f) (admits : t.Admits env r b u)
    (moved' : u.frame.transition .executing = .ok g) (hid : s.frame.id < s.world.opened)
    (ha : s.frame.ctx.self ≠ a) (unkept : s.Keepless a w)
    (rest : g.id < u.world.opened → g.ctx.self ≠ a → Site.Keepless a { u with frame := g } w →
      u.world.storage.Spares a False storage) :
    s.world.storage.Spares a (r.transfers = true ∧ r.caller = a) storage := by
  obtain ⟨steps, told⟩ := bind.tells (by rw [(Frame.same_transition moved).id]; exact hid)
  obtain ⟨steps', bound, same⟩ := told.executing moved bind.same admits moved'
  have hid' : g.id < u.world.opened := by
    rw [same.id]
    exact Nat.lt_of_lt_of_le hid bound.segment.le
  have executed := rest hid' (by rw [same.ctx]; exact ha) (unkept.rest bound same)
  exact bind.spares_binding.trans ((admits.storage ▸ executed).mono False.elim)

/-- The steps of a callee that commits keep it, and with it the callees that it keeps. -/
theorem Opening.committing_keepsFor {sc : Scope} {s t : Site} {steps : Trail} (o : Opening sc s)
    (t' : Site) (told : Telling o.site t steps) (hid : s.frame.id < s.world.opened)
    (h : o.child.ctx.self = a ∨ steps.KeepsFor o.child.id a) :
    (o.committing t' steps).KeepsFor s.frame.id a :=
  (Closing.of_commit _ _ _).keepsFor told.segment hid (Closing.committed_of_commit _ _ _) h

/-- A callee that is not delegated to draws on the address that its caller acts for. -/
theorem Opening.not_draws {sc : Scope} {s : Site} (o : Opening sc s) (ha : s.frame.ctx.self ≠ a) :
    ¬ (Place.frame sc.env o.request).Draws a := by
  rintro ⟨htransfers, hcaller⟩
  have direct : decide (o.spec.kind = .delegate) = false := by
    simpa [request, Exec.request] using htransfers
  have hself : o.request.caller = s.frame.ctx.self := by
    show (if decide (o.spec.kind = .delegate) then s.frame.ctx.sender else s.frame.ctx.self) = _
    rw [direct]
    rfl
  exact ha (hself.symm.trans hcaller)

/-- Code spares every address for which neither its frame acts nor a callee that is kept. -/
theorem Run.spares {p : Place} {s t : Site} {e : Option Fault} (h : Run p s e t)
    (hid : s.frame.id < s.world.opened) (ha : s.frame.ctx.self ≠ a) (unkept : s.Keepless a t) :
    s.world.storage.Spares a (p.Draws a) t.world.storage := by
  -- A callee that failed leaves the storage on which it began.
  have undone {sc s t e u} (o : Opening sc s) (inner : Run (.frame sc.env o.request) o.site e t)
      (hr : t.world.storage.rollback = .ok u) :
      s.world.storage.Spares a ((Place.body sc).Draws a) u :=
    .of_eq (Storage.rollback_above_snapshot (inner.above (List.cons_ne_nil _ _)) hr)
  induction h with
  | @trans p s t u e _ first rest ih ih' =>
    obtain ⟨steps, told⟩ := first.tells hid
    have hle := told.segment.le
    have hid' : t.frame.id < t.world.opened := by rw [first.same.id]; omega
    obtain ⟨steps', told'⟩ := rest.tells hid'
    refine (ih hid ha (unkept.first told' first.same)).trans (ih' hid' ?_ ?_)
    · rw [first.same.ctx]
      exact ha
    · exact unkept.rest told first.same
  | write _ h => exact .setSlot ha (Storage.write_eq_ok h).1
  | destroy _ _ h | send _ _ _ h => exact (Storage.Spares.transfer h).mono fun hself => ha hself
  | invoke _ _ _ _ ih =>
    exact ih hid ha (unkept.congr rfl fun steps told =>
      ⟨told.trail, told.segment, told.pending, told.terminations⟩)
  | @guarded _ s _ _ _ t _ _ _ _ inner ih =>
    have locked := Telling.locked s s.frame.ctx.self ∅
    have unlocked := Telling.unlocked t s.frame.ctx.self s.locals
    exact ih hid ha ((unkept.rest locked (.refl _)).first unlocked inner.same)
  | committed o inner ended ih =>
    obtain ⟨steps, told⟩ := inner.tells (Nat.lt_succ_self _)
    have inside := ih (Nat.lt_succ_self _)
      (fun hself => unkept _ (o.tells_committed hid told inner.same ended)
        (o.committing_keepsFor _ told hid (.inl hself)))
      fun _ told hkeeps => unkept _ (o.tells_committed hid told inner.same ended)
        (o.committing_keepsFor _ told hid (.inr hkeeps))
    obtain ⟨d, storage, f, hcommit, -, rfl, -⟩ := Site.commitTo_eq ended
    exact (inside.commit hcommit).mono (o.not_draws ha)
  | passed o inner ended | caught _ _ o inner ended =>
    obtain ⟨f, g, storage, -, hr, -, -, rfl⟩ := Site.revert_eq ended
    exact undone o inner hr
  | aborted o inner _ ended => exact undone o inner ended
  | pay _ _ transfers h => exact (Storage.Spares.transfer h).mono fun hcaller => ⟨transfers, hcaller⟩
  | start _ _ _ _ ih =>
    exact (ih hid ha (unkept.congr rfl fun steps told =>
      ⟨told.trail, told.segment, told.pending, told.terminations⟩)).mono id
  | refused moved bind => exact bind.spares_binding
  | failed moved bind admits moved' _ _ ih' =>
    exact bind.spares_executed moved admits moved' hid ha unkept ih'
  | finished moved bind admits moved' exec moved'' _ ih' =>
    exact bind.spares_executed moved admits moved' hid ha unkept fun hid ha unkept =>
      ih' hid ha (unkept.first (.moved moved'') exec.same)
  | _ => exact .refl _

/-! ## Frames act for live contracts -/

def Site.acting (s : Site) : List (Nat × Address) := s.world.trail.filterMap Step.acting?

/-- The frames opened since `s` act for live contracts. -/
def Site.LiveSince (r : Registry) (s t : Site) : Prop :=
  ∃ l, t.acting = l ++ s.acting ∧ ∀ x ∈ l, r.find? x.2 ≠ none

namespace Site

variable {r : Registry} {s t u : Site}

theorem LiveSince.of_eq (h : t.acting = s.acting) : s.LiveSince r t :=
  ⟨[], h, fun _ h => nomatch h⟩

theorem LiveSince.trans (h : s.LiveSince r t) (h' : t.LiveSince r u) : s.LiveSince r u := by
  obtain ⟨l, ht, hl⟩ := h
  obtain ⟨l', hu, hl'⟩ := h'
  refine ⟨l' ++ l, ?_, fun x hx => (List.mem_append.1 hx).elim (hl' x) (hl x)⟩
  rw [hu, ht, List.append_assoc]

theorem acting_commitTo {parent parent' : Frame} (h : t.commitTo parent = .ok (u, parent')) :
    u.acting = t.acting := by
  obtain ⟨d, storage, f, -, -, rfl, -⟩ := commitTo_eq h
  rfl

theorem acting_revert {c : Cause} {p : Bool} {out : Outcome} (h : t.revert c p = .ok (out, u)) :
    u.acting = t.acting := by
  obtain ⟨f, g, storage, -, -, -, -, rfl⟩ := revert_eq h
  rfl

theorem Admits.acting {env : Environment} {q : Request} {b : Bool} (h : s.Admits env q b t) :
    t.acting = s.acting := by
  cases h <;> rfl

end Site

theorem Opening.liveSince {sc : Scope} {s t t' : Site} (o : Opening sc s)
    (alive : (Place.body sc).Alive s)
    (h : (Place.frame sc.env o.request).Alive o.site → o.site.LiveSince sc.env.registry t)
    (ended : t'.acting = t.acting) (parent : Frame) :
    s.LiveSince sc.env.registry (o.caller.leave t' parent) := by
  have halive := o.alive alive
  have hself : sc.env.registry.find? o.child.ctx.self ≠ none := by
    refine halive ?_
    show sc.env.registry.find? o.target ≠ none
    rw [o.found]
    exact fun h => nomatch h
  have opened : s.LiveSince sc.env.registry o.site :=
    ⟨[(s.world.opened, o.child.ctx.self)], rfl, fun x hx => List.mem_singleton.1 hx ▸ hself⟩
  have left : (o.caller.leave t' parent).acting = t'.acting :=
    Trail.filterMap_releases _ _ _ fun _ => rfl
  exact (opened.trans (h halive)).trans (.of_eq (left.trans ended))

/-- The frames that code opens act for live contracts. -/
theorem Run.liveSince {p : Place} {s t : Site} {e : Option Fault} (h : Run p s e t)
    (alive : p.Alive s) : s.LiveSince p.env.registry t := by
  induction h with
  | trans first _ ih ih' => exact (ih alive).trans (ih' (alive.of_same first.same))
  | invoke _ _ _ _ ih => exact ih alive
  | guarded _ _ _ _ _ ih => exact ih alive
  | @committed _ _ _ _ parent o _ ended ih =>
    exact o.liveSince alive ih (Site.acting_commitTo ended) parent
  | passed o _ ended ih | caught _ _ o _ ended ih =>
    exact o.liveSince alive ih (Site.acting_revert ended) o.parent
  | @aborted _ _ t _ storage o _ _ _ ih =>
    have kept : (t.withStorage storage).acting = t.acting := rfl
    exact o.liveSince alive ih kept o.parent
  | @start env _ s _ _ sc _ _ found _ entered _ ih =>
    have henv : sc.env = env := Bound.env_of_mem_scopes entered
    rw [Place.env, henv] at ih
    refine ih ?_
    show sc.env.registry.find? s.frame.ctx.self ≠ none
    rw [henv]
    exact alive (by rw [found]; exact Option.some_ne_none _)
  | refused moved _ ih => exact ih (alive.bind moved)
  | failed moved bind admits moved' _ ih ih' | finished moved bind admits moved' _ _ ih ih' =>
    have bound := (ih (alive.bind moved)).trans (.of_eq admits.acting)
    exact bound.trans (ih' ((alive.bind moved).exec bind admits moved'))
  | _ => exact .of_eq rfl

/-- A frame whose code has ended ran the code of a live contract. -/
theorem Run.code_live {env : Environment} {r : Request} {s t : Site}
    (h : Run (.frame env r) s none t) : env.registry.find? r.codeAddress ≠ none := by
  cases h with
  | refl | trans | spend => exact absurd rfl (Place.Inner.not_frame (p := .frame env r) env r)
  | finished _ _ admits =>
    cases admits with
    | freely found | locking found =>
      rw [found]
      exact Option.some_ne_none _

end ContractVM
