/-
A failure that a call swallows leaves nothing behind.

Whatever the callee did before it failed, and however deep it called in turn,
the caller goes on with the storage, the locks and the buffers it had: it has
only paid, and only its success flag says what happened.  The callee wrote to a
layer of its own (`Run.above`), which is dropped, and buffered in a frame of its
own (`Opening.frame_undone`), and whatever locks it still holds are released
when it is let go (`Run.locks`).
-/
import ContractVM.Proofs.Exec.Instr

namespace ContractVM

open Exec

/-- The latest step between `s` and `t` is that a call of the frame failed and
the frame goes on. -/
def Site.Swallowed (s t : Site) : Prop :=
  ∃ fn c mid, t.world.trail = .callFailed s.frame.id fn c :: (mid ++ s.world.trail)

/-- `t` is `s` but for the gas of its frame and the success flag of a call. -/
structure CallSpec.Undone (spec : CallSpec) (s t : Site) : Prop where
  storage : t.world.storage = s.world.storage
  locks : t.world.locks = s.world.locks
  frame : t.frame = { s.frame with meter := t.frame.meter }
  budget : t.frame.meter.budget = s.frame.meter.budget
  locals : t.locals = flagged spec.success (.bool false) s.locals

variable {sc : Scope} {s t : Site} {spec : CallSpec}

/-- The latest step of a callee that committed is its commit, or the release of
a lock it held. -/
theorem Opening.head_committed (o : Opening sc s) {u u' : Site} {parent : Frame}
    (ended : u.commitTo o.parent = .ok (u', parent)) {fn : String} {c : Cause} {id : Nat}
    {rest : Trail} : (o.caller.leave u' parent).world.trail ≠ .callFailed id fn c :: rest := by
  obtain ⟨d, storage, f, -, -, rfl, -⟩ := Site.commitTo_eq ended
  show (f.tokens.map fun t => Step.unlocked f.id t.address).reverse ++
    .committed f.id f.meter.left :: u.world.trail ≠ _
  cases hr : (f.tokens.map fun t => Step.unlocked f.id t.address).reverse with
  | nil => exact fun h => nomatch h
  | cons step others =>
    have hmem : step ∈ f.tokens.map fun t => Step.unlocked f.id t.address := by
      rw [← List.mem_reverse, hr]
      exact List.mem_cons_self
    obtain ⟨token, -, rfl⟩ := List.mem_map.1 hmem
    exact fun h => nomatch h

/-- Undoing a callee gives the caller back everything but gas. -/
theorem Opening.undone_reverted (o : Opening sc s) {u u' : Site} {c : Cause} {p : Bool}
    {left : Int} (h : Run (.frame sc.env o.request) o.site (some (.raised c p)) u)
    (ended : u.revert c p = .ok (.reverted c left, u')) :
    (o.caller.leave u' o.parent).world.storage = s.world.storage ∧
      (o.caller.leave u' o.parent).world.locks = s.world.locks ∧
      (o.caller.leave u' o.parent).frame = { s.frame with meter := o.paid } := by
  obtain ⟨tokens, htokens, htaken, -⟩ := h.locks
  obtain ⟨htokens', hlocks⟩ := Site.tokens_revert ended
  refine ⟨?_, ?_, o.frame_undone ((Site.id_revert ended).trans h.same.id)⟩
  · obtain ⟨f, g, storage, -, hstorage, -, -, rfl⟩ := Site.revert_eq ended
    exact Storage.rollback_above_snapshot (h.above (List.cons_ne_nil _ _)) hstorage
  · exact Site.locks_leave (by rw [htokens', hlocks, htokens]; exact htaken)

theorem Exec.Called.undone (caught : spec.caught = some true)
    (h : Called sc spec s (.ok () t)) (swallowed : s.Swallowed t) : spec.Undone s t := by
  obtain ⟨fn, c, mid, htrail⟩ := swallowed
  have hcaught : spec.caught.getD false = true := by rw [caught]; rfl
  generalize hr : (EStateM.Result.ok () t : EStateM.Result Fault Site Unit) = r at h
  cases h with
  | thrown => cases hr
  | failed paid =>
    obtain ⟨m, hm, rfl⟩ := paid
    rw [callFailed_eq_ok hcaught] at hr
    cases hr
    exact ⟨rfl, rfl, rfl, hm.1, rfl⟩
  | sent paid =>
    -- A transfer that went through adds no step at all.
    obtain ⟨m, -, rfl⟩ := paid
    rw [setNamed_eq] at hr
    cases hr
    have hlength := congrArg List.length htrail
    simp only [Site.withStorage, Site.withMeter, List.length_cons, List.length_append] at hlength
    omega
  | @committed u u' u'' parent v paid o _ ended =>
    obtain ⟨m, -, rfl⟩ := paid
    rw [bind_ok (setNamed_eq _ _)] at hr
    obtain ⟨locals, hlocals⟩ := setResult_eq (s := { ((o.caller.leave u'' parent).refund
      u''.frame.meter.left) with locals := flagged spec.success (.bool true) s.locals })
      (spec.result.filter (· ≠ "")) v
    cases hr.trans hlocals
    exact absurd htrail (o.head_committed ended)
  | @reverted u u' u'' c p left paid o h ended =>
    obtain ⟨m, hm, rfl⟩ := paid
    rw [callFailed_eq_ok hcaught] at hr
    cases hr
    obtain ⟨hstorage, hlocks, hframe⟩ := o.undone_reverted h ended
    have hrefund : ((o.caller.leave u'' o.parent).refund left).frame =
        { s.frame with meter := o.paid.refund left } :=
      congrArg (fun f : Frame => { f with meter := f.meter.refund left }) hframe
    refine ⟨hstorage, hlocks, ?_, ?_, rfl⟩
    · show ((o.caller.leave u'' o.parent).refund left).frame =
        { s.frame with meter := ((o.caller.leave u'' o.parent).refund left).frame.meter }
      rw [hrefund]
    · show ((o.caller.leave u'' o.parent).refund left).frame.meter.budget = _
      rw [hrefund]
      exact o.budget_paid.trans hm.1

/-- A caught call that fails in a callee, before it or for want of one is as if
it had not been made, but for the gas and the success flag. -/
theorem Instr.call_swallowed {depth : Nat} {flow : Flow} (caught : spec.caught = some true)
    (ended : (Instr.call spec).exec (runBody depth) sc s = .ok flow t)
    (swallowed : s.Swallowed t) : flow = .next ∧ spec.Undone s t := by
  have hcalled : Called sc spec s (Exec.call (runBody depth) sc spec s) :=
    call_called (runBody_follows depth)
  unfold Instr.exec at ended
  cases hr : Exec.call (runBody depth) sc spec s with
  | error f u =>
    rw [bind_error hr] at ended
    cases ended
  | ok a u =>
    rw [bind_ok hr] at ended
    cases ended
    rw [hr] at hcalled
    exact ⟨rfl, hcalled.undone caught swallowed⟩

/-! ## A callee that takes a lock, writes and reverts -/

namespace CaughtCall

def vault : Address := "0x000000000000000000000000000000000000000a"

def wallet : Address := "0x000000000000000000000000000000000000000b"

def take : FunctionDef where
  name := "take"
  visibility := .external
  mutability := .mutating
  nonReentrant := true
  body := [.sstore (.const (.text "n")) (.const (.int 1)), .revert "no"]

def tryTake : CallSpec where
  kind := .call
  target := .const (.text vault)
  fn := "take"
  caught := some true
  success := some "taken"

def scope : Scope where
  env :=
    { registry :=
        { Registry.empty with
          contracts := .ofList
            [(vault, ⟨vault, "Vault", .ofList [("take", ⟨"Vault", take⟩)], ∅, [], none⟩)] }
      maxCallDepth := .ofNat 256
      block := {} }
  contract := ⟨wallet, "Wallet", ∅, ∅, [], none⟩
  owner := "Wallet"
  mutability := .mutating
  args := ∅

def before : Site where
  world := ⟨⟨.empty, [.empty]⟩, [], [], 1⟩
  frame := .start 0 none ⟨vault, vault, 0, wallet, wallet, 0, 0⟩ ⟨false, false, false⟩
    ⟨100000, 100000⟩
  locals := ∅

/-- Where an instruction ends, and whether the body goes on from there. -/
def ending : EStateM.Result Fault Site Flow → Bool × Site
  | .ok flow t => (decide (flow = .next), t)
  | .error _ t => (false, t)

def after : Site := (ending ((Instr.call tryTake).exec (runBody 2) scope before)).2

end CaughtCall

open CaughtCall in
theorem Instr.call_swallowed_take :
    (Instr.call tryTake).exec (runBody 2) scope before = .ok .next after ∧
      before.Swallowed after ∧ tryTake.Undone before after := by
  have goesOn : (ending ((Instr.call tryTake).exec (runBody 2) scope before)).1 = true := by
    decide +kernel
  have noted : after.world.trail.head? = some (.callFailed 0 "take" (.reverted "no")) := by
    decide +kernel
  obtain ⟨trail, htrail⟩ := List.head?_eq_some_iff.1 noted
  have swallowed : before.Swallowed after :=
    ⟨"take", .reverted "no", trail, htrail.trans (congrArg _ (List.append_nil trail).symm)⟩
  have ended : (Instr.call tryTake).exec (runBody 2) scope before = .ok .next after := by
    unfold after
    cases hr : (Instr.call tryTake).exec (runBody 2) scope before with
    | ok flow t =>
      rw [hr] at goesOn
      rw [of_decide_eq_true goesOn]
      rfl
    | error f t =>
      rw [hr] at goesOn
      cases goesOn
  exact ⟨ended, swallowed, (Instr.call_swallowed rfl ended swallowed).2⟩

end ContractVM
