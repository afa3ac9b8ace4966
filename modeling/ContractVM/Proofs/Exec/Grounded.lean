/-
Code acts in the name of live contracts only.

A frame runs code, so the code is there, and the address it acts for is that of
the code or, in a delegated call, the one its caller acts for.  By induction over
the calls that address is always live (`Place.Alive`), and with it every address
a frame marks for termination and every address it emits an event for.
-/
import ContractVM.Proofs.Exec.Kept

namespace ContractVM

def Place.env : Place → Environment
  | .frame env _ => env
  | .binding env _ => env
  | .executing env _ => env
  | .body sc => sc.env

/-- The frame acts for a live contract, or will once it has found its code. -/
def Place.Alive (p : Place) (s : Site) : Prop :=
  match p with
  | .frame env r | .binding env r | .executing env r =>
    env.registry.find? r.codeAddress ≠ none → env.registry.find? s.frame.ctx.self ≠ none
  | .body sc => sc.env.registry.find? s.frame.ctx.self ≠ none

/-- What a frame has buffered is about live contracts. -/
structure Frame.Grounded (r : Registry) (f : Frame) : Prop where
  terminations : ∀ a ∈ f.terminations, r.find? a ≠ none
  pending : ∀ e ∈ f.pending, r.find? e.address ≠ none

namespace Frame.Grounded

variable {r : Registry} {f g : Frame}

theorem of_eq (h : f.Grounded r) (ht : g.terminations = f.terminations)
    (hp : g.pending = f.pending) : g.Grounded r :=
  ⟨ht ▸ h.terminations, hp ▸ h.pending⟩

theorem transition (h : f.Grounded r) {next : Phase} (hf : f.transition next = .ok g) :
    g.Grounded r := by
  have hg := (Frame.transition_eq_ok hf).2
  exact h.of_eq (by rw [hg]) (by rw [hg])

theorem admits {env : Environment} {q : Request} {s t : Site} {b : Bool} (h : s.frame.Grounded r)
    (ht : s.Admits env q b t) : t.frame.Grounded r := by
  cases ht with
  | freely => exact h
  | locking => exact h.of_eq rfl rfl

theorem start {id : Nat} {parent : Option Frame} {ctx : Context} {flags : FrameFlags}
    {meter : GasMeter} : (Frame.start id parent ctx flags meter).Grounded r :=
  ⟨fun _ h => (nomatch h), fun _ h => (nomatch h)⟩

theorem append (ends : List Address) (events : List Event) (h : f.Grounded r)
    (ht : g.terminations = f.terminations ++ ends) (hp : g.pending = f.pending ++ events)
    (hends : ∀ a ∈ ends, r.find? a ≠ none) (hevents : ∀ e ∈ events, r.find? e.address ≠ none) :
    g.Grounded r where
  terminations := fun a ha => by
    rw [ht, List.mem_append] at ha
    exact ha.elim (h.terminations a) (hends a)
  pending := fun e he => by
    rw [hp, List.mem_append] at he
    exact he.elim (h.pending e) (hevents e)

end Frame.Grounded

theorem Opening.alive {sc : Scope} {s : Site} (o : Opening sc s)
    (h : (Place.body sc).Alive s) : (Place.frame sc.env o.request).Alive o.site := by
  intro _
  show sc.env.registry.find? (if decide (o.spec.kind = .delegate) then s.frame.ctx.self
    else o.target) ≠ none
  split
  · exact h
  · rw [o.found]
    exact fun h => nomatch h

theorem Place.Alive.of_same {p : Place} {s t : Site} (h : p.Alive s) (hf : s.frame.Same t.frame) :
    p.Alive t := by
  cases p with
  | body sc =>
    show sc.env.registry.find? t.frame.ctx.self ≠ none
    rw [hf.ctx]
    exact h
  | frame env r | binding env r | executing env r =>
    intro hr
    show env.registry.find? t.frame.ctx.self ≠ none
    rw [hf.ctx]
    exact h hr

namespace Place.Alive

variable {env : Environment} {r : Request} {s t u : Site} {f : Frame} {b : Bool}

theorem bind (h : (Place.frame env r).Alive s) (moved : s.frame.transition .binding = .ok f) :
    (Place.binding env r).Alive { s with frame := f } :=
  h.of_same (Frame.same_transition moved)

theorem exec (h : (Place.binding env r).Alive s) (ran : Run (.binding env r) s none t)
    (admits : t.Admits env r b u) (moved : u.frame.transition .executing = .ok f) :
    (Place.executing env r).Alive { u with frame := f } :=
  h.of_same ((ran.same.trans admits.same).trans (Frame.same_transition moved))

end Place.Alive

theorem Bound.env_of_mem_scopes {env : Environment} {c : Contract} {b : Bound} {sc : Scope}
    (h : sc ∈ b.scopes env c) : sc.env = env := by
  cases b with
  | construct inits =>
    obtain ⟨i, -, rfl⟩ := List.mem_map.1 h
    rfl
  | fallback fb => rw [List.mem_singleton.1 h]
  | function fn args => rw [List.mem_singleton.1 h]

theorem Run.grounded {p : Place} {s t : Site} {e : Option Fault} (h : Run p s e t)
    (hp : p.Alive s) (hs : s.frame.Grounded p.env.registry) :
    t.frame.Grounded p.env.registry := by
  induction h with
  | trans first _ ih ih' => exact ih' (hp.of_same first.same) (ih hp hs)
  | @emit _ s _ name fields =>
    refine hs.append [] [⟨s.frame.ctx.self, name, fields⟩] (List.append_nil _).symm rfl
      (fun _ h => (nomatch h)) fun e he => ?_
    rw [List.mem_singleton.1 he]
    exact hp
  | @destroy _ s =>
    refine hs.append [s.frame.ctx.self] [] rfl (List.append_nil _).symm (fun a ha => ?_) fun _ h => (nomatch h)
    rw [List.mem_singleton.1 ha]
    exact hp
  | invoke _ _ _ _ ih => exact ih hp hs
  | guarded _ _ _ _ _ ih => exact ih hp hs
  | @committed _ s t t' parent o h ended ih =>
    have callee := ih (o.alive hp) .start
    have hf := o.frame_committed h.same.id ended
    refine hs.append t.frame.terminations t.frame.pending ?_ ?_
      callee.terminations callee.pending
    · show (o.caller.leave t' parent).frame.terminations = _
      rw [hf]
    · show (o.caller.leave t' parent).frame.pending = _
      rw [hf]
  | @passed _ s t t' _ _ _ o h ended | @caught _ s t t' _ _ _ _ _ o h ended =>
    have hf := o.frame_undone ((Site.id_revert ended).trans h.same.id)
    refine hs.of_eq ?_ ?_
    · show (o.caller.leave t' o.parent).frame.terminations = _
      rw [hf]
    · show (o.caller.leave t' o.parent).frame.pending = _
      rw [hf]
  | @aborted _ s t _ storage o h =>
    have hf := o.frame_undone (t := t.withStorage storage) h.same.id
    exact hs.of_eq (by rw [hf]) (by rw [hf])
  | @start env r s c b sc e t found bound entered h ih =>
    have hsc : sc.env = env := Bound.env_of_mem_scopes entered
    have hself : sc.env.registry.find? s.frame.ctx.self ≠ none := by
      rw [hsc]
      exact hp (by rw [found]; exact fun h => nomatch h)
    have hbody := ih hself (by rw [Place.env, hsc]; exact hs)
    rw [Place.env, hsc] at hbody
    exact hbody
  | refused moved _ ih => exact ih (hp.bind moved) (hs.transition moved)
  | failed moved bind admits moved' _ ih ih' =>
    exact ih' ((hp.bind moved).exec bind admits moved')
      (((ih (hp.bind moved) (hs.transition moved)).admits admits).transition moved')
  | finished moved bind admits moved' _ moved'' ih ih' =>
    exact (ih' ((hp.bind moved).exec bind admits moved')
      (((ih (hp.bind moved) (hs.transition moved)).admits admits).transition moved')).transition
        moved''
  | _ => exact hs.of_eq rfl rfl

end ContractVM
