/-
Code that may not write changes nothing but gas.

A static frame, and a body of a function that only reads, pass every check for
writing in vain, and so does whatever they invoke: an invoked function may do no
more than its caller.  A frame they open is static (`Opening.reads`), so by
induction over the calls the layers and the buffers stay what they were, however
deep it goes (`Run.reads`).
-/
import ContractVM.Proofs.Exec.Instr

namespace ContractVM

/-- Neither the storage nor the buffers of the frame have changed. -/
structure Site.Unchanged (s t : Site) : Prop where
  storage : t.world.storage = s.world.storage
  pending : t.frame.pending = s.frame.pending
  terminations : t.frame.terminations = s.frame.terminations

namespace Site.Unchanged

variable {s t u : Site}

theorem trans (h : s.Unchanged t) (h' : t.Unchanged u) : s.Unchanged u where
  storage := h'.storage.trans h.storage
  pending := h'.pending.trans h.pending
  terminations := h'.terminations.trans h.terminations

theorem moved {f : Frame} {next : Phase} (h : s.frame.transition next = .ok f) :
    s.Unchanged { s with frame := f } := by
  have hf := (Frame.transition_eq_ok h).2
  exact ⟨rfl, by rw [hf], by rw [hf]⟩

theorem admitted {env : Environment} {r : Request} {b : Bool} (h : s.Admits env r b t) :
    s.Unchanged t := by
  cases h <;> exact ⟨rfl, rfl, rfl⟩

theorem entered {env : Environment} {r : Request} {b : Bool} {f g : Frame}
    (moved : s.frame.transition .binding = .ok f) (bound : Unchanged { s with frame := f } t)
    (admits : t.Admits env r b u) (moved' : u.frame.transition .executing = .ok g) :
    s.Unchanged { u with frame := g } :=
  (((Unchanged.moved moved).trans bound).trans (.admitted admits)).trans (.moved moved')

end Site.Unchanged

/-! ## Places that only read -/

/-- Nothing may be written here: not by the body at hand, or not by any that the
request may come to, which then moves no value either. -/
def Place.Reads (p : Place) (s : Site) : Prop :=
  match p with
  | .body sc => ¬ sc.MayWrite s.frame.flags
  | .frame env r | .binding env r | .executing env r =>
    ∀ c b, env.registry.find? r.codeAddress = some c → c.bind r = .ok b →
      (r.transfers = true → r.value ≤ 0) ∧ ∀ sc ∈ b.scopes env c, ¬ sc.MayWrite s.frame.flags

theorem Place.Reads.of_same {p : Place} {s t : Site} (h : p.Reads s) (hf : s.frame.Same t.frame) :
    p.Reads t := by
  have hflags : t.frame.flags = s.frame.flags := hf.flags
  cases p with
  | body sc =>
    show ¬ sc.MayWrite t.frame.flags
    rw [hflags]
    exact h
  | frame env r | binding env r | executing env r =>
    intro c b hc hb
    rw [hflags]
    exact h c b hc hb

namespace Scope

variable {sc : Scope} {flags : FrameFlags}

/-- What an invoked function may not do, its caller may not do either. -/
theorem MayWrite.of_inner {f : Owned FunctionDef} {args : Args}
    (h : (sc.inner f args).MayWrite flags) : sc.MayWrite flags := by
  refine ⟨h.1, ?_⟩
  have hrank := h.2
  rw [inner, Mutability.rank_narrower] at hrank
  omega

theorem not_mayWrite_iff : ¬ sc.MayWrite flags ↔
    flags.isStatic = true ∨ sc.mutability.rank < 2 := by
  unfold MayWrite
  rw [Classical.not_and_iff_not_or_not, Bool.not_eq_false, Nat.not_le]

end Scope

/-- A frame that is opened where nothing may be written can write nothing. -/
theorem Opening.reads {sc : Scope} {s : Site} (o : Opening sc s)
    (h : ¬ sc.MayWrite s.frame.flags) : (Place.frame sc.env o.request).Reads o.site := by
  have static : o.request.flags.isStatic = true := by
    show (s.frame.flags.isStatic || decide (sc.mutability.rank < 2)) = true
    rw [Bool.or_eq_true, decide_eq_true_iff]
    exact Scope.not_mayWrite_iff.1 h
  intro c b _ _
  refine ⟨fun htransfers => ?_, fun sc' _ may => ?_⟩
  · have direct : decide (o.spec.kind = .delegate) = false := by
      simpa [request, Exec.request] using htransfers
    show (if decide (o.spec.kind = .delegate) then s.frame.ctx.value else o.amount) ≤ 0
    rw [direct]
    exact Int.not_lt.1 fun hpos => h (o.writable hpos)
  · rw [show o.site.frame.flags = o.request.flags from rfl] at may
    exact absurd may.1 (by rw [static]; exact Bool.noConfusion)

/-! ## The storage -/

/-- A layer that was not written to leaves no trace when it is merged. -/
theorem Storage.commit_snapshot {s t : Storage} {d : Option Delta}
    (h : s.snapshot.commit = .ok (d, t)) : t = s := by
  obtain ⟨p, ls⟩ := s
  cases ls <;> (cases h; rfl)

theorem Storage.transfer_nonpos {s t : Storage} {a b : Address} {n : Int} (hn : n ≤ 0)
    (h : s.transfer a b n = .ok t) : t = s := by
  rcases transfer_eq_ok h with ⟨-, rfl⟩ | ⟨hpos, -, -⟩
  · rfl
  · omega

/-! ## Callees -/

namespace Opening

variable {sc : Scope} {s t t' : Site}

theorem unchanged_committed (o : Opening sc s) (h : o.site.Unchanged t)
    (hid : t.frame.id = s.world.opened) {parent : Frame}
    (ended : t.commitTo o.parent = .ok (t', parent)) :
    s.Unchanged (o.caller.leave t' parent) := by
  have hf := o.frame_committed hid ended
  obtain ⟨d, storage, f, hc, -, rfl, -⟩ := Site.commitTo_eq ended
  rw [h.storage] at hc
  refine ⟨Storage.commit_snapshot (s := s.world.storage) hc, ?_, ?_⟩
  · rw [hf, h.pending]
    exact List.append_nil _
  · rw [hf, h.terminations]
    exact List.append_nil _

theorem unchanged_reverted (o : Opening sc s) (h : o.site.Unchanged t)
    (hid : t.frame.id = s.world.opened) {c : Cause} {p : Bool} {out : Outcome}
    (ended : t.revert c p = .ok (out, t')) : s.Unchanged (o.caller.leave t' o.parent) := by
  have hf := o.frame_undone ((Site.id_revert ended).trans hid)
  obtain ⟨f, g, storage, -, hr, -, -, rfl⟩ := Site.revert_eq ended
  rw [h.storage] at hr
  cases hr
  exact ⟨rfl, by rw [hf], by rw [hf]⟩

theorem unchanged_aborted (o : Opening sc s) (h : o.site.Unchanged t)
    (hid : t.frame.id = s.world.opened) {storage : Storage}
    (ended : t.world.storage.rollback = .ok storage) :
    s.Unchanged (o.caller.leave (t.withStorage storage) o.parent) := by
  have hf := o.frame_undone (t := t.withStorage storage) hid
  rw [h.storage] at ended
  cases ended
  exact ⟨rfl, by rw [hf], by rw [hf]⟩

end Opening

/-! ## Code -/

theorem Run.reads {p : Place} {s t : Site} {e : Option Fault} (h : Run p s e t)
    (hp : p.Reads s) : s.Unchanged t := by
  induction h with
  | trans first _ ih ih' => exact (ih hp).trans (ih' (hp.of_same first.same))
  | write may => exact absurd may hp
  | emit may => exact absurd may hp
  | destroy may => exact absurd may hp
  | invoke _ _ _ _ ih =>
    have inner := ih fun may => hp may.of_inner
    exact ⟨inner.storage, inner.pending, inner.terminations⟩
  | guarded _ _ _ _ _ ih =>
    have inner := ih fun may => hp may.of_inner
    exact ⟨inner.storage, inner.pending, inner.terminations⟩
  | send _ may _ h =>
    exact ⟨Storage.transfer_nonpos (Int.not_lt.1 fun hpos => hp (may hpos)) h, rfl, rfl⟩
  | committed o h ended ih =>
    have callee := o.unchanged_committed (ih (o.reads hp)) h.same.id ended
    exact ⟨callee.storage, callee.pending, callee.terminations⟩
  | passed o h ended ih | caught _ _ o h ended ih =>
    have callee := o.unchanged_reverted (ih (o.reads hp)) h.same.id ended
    exact ⟨callee.storage, callee.pending, callee.terminations⟩
  | aborted o h _ ended ih => exact o.unchanged_aborted (ih (o.reads hp)) h.same.id ended
  | pay found bound transfers h =>
    exact ⟨Storage.transfer_nonpos ((hp _ _ found bound).1 transfers) h, rfl, rfl⟩
  | start found bound entered _ ih =>
    have inner := ih ((hp _ _ found bound).2 _ entered)
    exact ⟨inner.storage, inner.pending, inner.terminations⟩
  | refused moved _ ih =>
    exact (Site.Unchanged.moved moved).trans (ih (hp.of_same (Frame.same_transition moved)))
  | failed moved bind admits moved' _ ih ih' =>
    have bound := ih (hp.of_same (Frame.same_transition moved))
    exact (Site.Unchanged.entered moved bound admits moved').trans
      (ih' (hp.of_same (.entered moved bind admits moved')))
  | finished moved bind admits moved' _ moved'' ih ih' =>
    have bound := ih (hp.of_same (Frame.same_transition moved))
    exact ((Site.Unchanged.entered moved bound admits moved').trans
      (ih' (hp.of_same (.entered moved bind admits moved')))).trans (.moved moved'')
  | _ => exact ⟨rfl, rfl, rfl⟩

/-- However a frame ends that was opened where nothing may be written, its caller gets
back the storage and the buffers it had. -/
theorem Opening.returns_unchanged {sc : Scope} {s : Site} (o : Opening sc s)
    (h : ¬ sc.MayWrite s.frame.flags) (depth : Nat) :
    s.Unchanged (Exec.endSite (Exec.openFrame (runBody depth) sc.env o.request o.caller)) := by
  have ends := Exec.openFrame_ends (runBody_follows depth) o
  generalize Exec.openFrame (runBody depth) sc.env o.request o.caller = r at ends ⊢
  cases ends with
  | committed ran ended =>
    exact o.unchanged_committed (ran.reads (o.reads h)) ran.same.id ended
  | reverted ran ended =>
    exact o.unchanged_reverted (ran.reads (o.reads h)) ran.same.id ended
  | aborted ran _ ended =>
    exact o.unchanged_aborted (ran.reads (o.reads h)) ran.same.id ended

end ContractVM
