/-
What holds wherever code stands.

At every moment of a run, however deep in calls it is, the frame at hand acts for a live
contract, has no callee on top of it, is in the phase of the place it stands at, and has one
open layer for itself and one for each of its callers (`Place.Standing`).  What a run keeps
of this is `Run.standing`, and `Moment.standing` carries it into callees.
-/
import ContractVM.Proofs.Exec.Grounded
import ContractVM.Proofs.Exec.Moment

namespace ContractVM

/-- The phase of a frame that stands at a place inside its life. -/
def Place.Timely (p : Place) (s : Site) : Prop :=
  match p with
  | .frame .. => s.frame.phase = .pending
  | .binding .. => s.frame.phase = .binding
  | .executing .. | .body _ => s.frame.phase = .executing

structure Place.Standing (p : Place) (s : Site) : Prop where
  alive : p.Alive s
  depth : s.world.storage.depth = s.frame.depth + 1
  idle : s.frame.active = none
  timely : p.Timely s

theorem Place.Standing.layers_ne {p : Place} {s : Site} (h : p.Standing s) :
    s.world.storage.layers ≠ [] := by
  intro hl
  have hdepth := h.depth
  rw [Storage.depth, hl] at hdepth
  exact Nat.succ_ne_zero _ hdepth.symm

/-! ## Steps -/

theorem Site.Enters.same {env : Environment} {r : Request} {s t : Site} {b : Bool}
    (h : s.Enters env r b t) : s.frame.Same t.frame := by
  obtain ⟨moved, bind, admits, moved'⟩ := h
  exact .entered moved bind admits moved'

theorem Site.Enters.above {env : Environment} {r : Request} {s t : Site} {b : Bool}
    (h : s.Enters env r b t) (layers : s.world.storage.layers ≠ []) :
    s.world.storage.Above t.world.storage := by
  obtain ⟨-, bind, admits, -⟩ := h
  exact admits.storage ▸ bind.above layers

theorem Site.Enters.phase {env : Environment} {r : Request} {s t : Site} {b : Bool}
    (h : s.Enters env r b t) : t.frame.phase = .executing := by
  obtain ⟨-, -, -, moved'⟩ := h
  exact Frame.phase_transition moved'

namespace Place.Standing

variable {p : Place} {sc : Scope} {env : Environment} {r : Request} {s t : Site}

/-- Another state of the frame, with other writes on its layer. -/
theorem of_same (h : p.Standing s) (same : s.frame.Same t.frame)
    (above : s.world.storage.Above t.world.storage) (timely : p.Timely t) : p.Standing t where
  alive := h.alive.of_same same
  depth := by rw [above.depth h.layers_ne, h.depth, same.depth]
  idle := same.active.trans h.idle
  timely := timely

theorem opened (h : (Place.body sc).Standing s) (o : Opening sc s) :
    (Place.frame sc.env o.request).Standing o.site where
  alive := o.alive h.alive
  depth := congrArg (· + 1) h.depth
  idle := rfl
  timely := rfl

theorem bound (h : (Place.frame env r).Standing s) {f : Frame}
    (moved : s.frame.transition .binding = .ok f) :
    (Place.binding env r).Standing { s with frame := f } where
  alive := h.alive.bind moved
  depth := by
    show s.world.storage.depth = f.depth + 1
    rw [h.depth, (Frame.same_transition moved).depth]
  idle := (Frame.same_transition moved).active.trans h.idle
  timely := Frame.phase_transition moved

theorem entered (h : (Place.frame env r).Standing s) {b : Bool} (entered : s.Enters env r b t) :
    (Place.executing env r).Standing t where
  alive := Place.Alive.of_same (p := .executing env r) h.alive entered.same
  depth := by rw [(entered.above h.layers_ne).depth h.layers_ne, h.depth, entered.same.depth]
  idle := entered.same.active.trans h.idle
  timely := entered.phase

theorem started (h : (Place.executing env r).Standing s) {c : Contract} {b : Bound}
    (found : env.registry.find? r.codeAddress = some c) (entered : sc ∈ b.scopes env c) :
    (Place.body sc).Standing { s with locals := ∅ } where
  alive := by
    show sc.env.registry.find? s.frame.ctx.self ≠ none
    rw [Bound.env_of_mem_scopes entered]
    exact h.alive (by rw [found]; exact fun h => nomatch h)
  depth := h.depth
  idle := h.idle
  timely := h.timely

end Place.Standing

theorem Run.standing {p : Place} [p.Inner] {s t : Site} {e : Option Fault} (h : Run p s e t)
    (hs : p.Standing s) : p.Standing t := by
  refine hs.of_same h.same (h.above hs.layers_ne) ?_
  have hphase := h.phase (Place.Inner.not_frame (p := p))
  cases p with
  | frame env r => exact absurd rfl (Place.Inner.not_frame (p := .frame env r) env r)
  | binding env r | executing env r | body sc => exact hphase.trans hs.timely

/-! ## Moments -/

/-- Code stands inside the life of a frame, and not at its end. -/
theorem Moment.standing {p q : Place} {s u : Site} {K : List Activation} {e : Option Fault}
    (h : Moment p s K q e u) (inner : ∀ env r, q ≠ .frame env r) (hs : p.Standing s) :
    q.Standing u ∧ q.env = p.env := by
  induction h with
  | now h => exact ⟨h.standing hs, rfl⟩
  | later h _ ih => exact ih inner (h.standing hs)
  | invoke _ _ _ _ ih | guarded _ _ _ _ _ ih =>
    exact ih inner ⟨hs.alive, hs.depth, hs.idle, hs.timely⟩
  | call o _ ih => exact ih inner (hs.opened o)
  | start found _ entered _ ih =>
    obtain ⟨hu, henv⟩ := ih inner (hs.started found entered)
    exact ⟨hu, henv.trans (Bound.env_of_mem_scopes entered)⟩
  | bind moved _ ih => exact ih inner (hs.bound moved)
  | execute entered _ ih => exact ih inner (hs.entered entered)
  | opened | refused | ended => exact absurd rfl (inner _ _)

end ContractVM
