/-
What frames tell of their gas while code runs.

Along a run the frame at hand never has more gas than before, so what it tells at
its boundaries goes down; what its callees tell is told of frames with numbers of
their own.  `Run.metering` is an induction over `Run`, in which the stretches of the
trail are put together as `Trail.Metered` prescribes.
-/
import ContractVM.Proofs.Exec.Solvent
import ContractVM.Proofs.Trail.Gas

namespace ContractVM

theorem Trail.mute_releases (f : Nat) (tokens : List LockToken) {t : Trail}
    (h : ∀ step ∈ t, step.Mute) : ∀ step ∈ releases f tokens ++ t, step.Mute := by
  intro step hstep
  rcases List.mem_append.1 hstep with hrelease | hstep
  · obtain ⟨l, -, rfl⟩ := List.mem_map.1 (List.mem_reverse.1 hrelease)
    exact ⟨rfl, rfl⟩
  · exact h step hstep

theorem Trail.mute_single {step : Step} (h : step.Mute) : ∀ step' ∈ [step], step'.Mute := by
  intro step' hstep
  rw [List.mem_singleton.1 hstep]
  exact h

/-- The steps that code takes from `s` to `t`, where it ends with `e`.  If it goes on, its
frame has not told less than it has now. -/
structure Metering (e : Option Fault) (s t : Site) (steps : Trail) : Prop where
  trail : t.world.trail = steps ++ s.world.trail
  metered : steps.Metered s.frame.id s.world.opened t.world.opened s.frame.meter.left
  above : e = none → ∀ n ∈ steps.lefts s.frame.id, t.frame.meter.left ≤ n

namespace Metering

variable {e : Option Fault} {s t u : Site} {steps steps' : Trail}

theorem mute (htrail : t.world.trail = steps ++ s.world.trail) (hopened : t.world.opened = s.world.opened)
    (h : ∀ step ∈ steps, step.Mute) : Metering e s t steps where
  trail := htrail
  metered := by
    rw [hopened]
    exact .of_mute h _ _ _
  above := fun _ n hn => by
    rw [(Trail.Untold.of_mute h _).lefts] at hn
    cases hn

theorem quiet (htrail : t.world.trail = s.world.trail) (hopened : t.world.opened = s.world.opened) :
    Metering e s t [] :=
  .mute htrail hopened fun _ h => nomatch h

theorem step {step : Step} (htrail : t.world.trail = step :: s.world.trail)
    (hopened : t.world.opened = s.world.opened) (h : step.Mute) : Metering e s t [step] :=
  .mute htrail hopened (Trail.mute_single h)

/-- The same steps, for sites that differ in nothing that gas depends on. -/
theorem congr {s' t' : Site} (h : Metering e s t steps) (hs : s'.world.trail = s.world.trail)
    (hopened : s'.world.opened = s.world.opened) (hid : s'.frame.id = s.frame.id)
    (hmeter : s'.frame.meter = s.frame.meter) (ht : t'.world.trail = t.world.trail)
    (hopened' : t'.world.opened = t.world.opened) (hmeter' : t'.frame.meter = t.frame.meter) :
    Metering e s' t' steps where
  trail := by rw [ht, hs, h.trail]
  metered := by rw [hid, hopened, hopened', hmeter]; exact h.metered
  above := by rw [hid, hmeter']; exact h.above

theorem trans (h : Metering none s t steps) (h' : Metering e t u steps')
    (hid : t.frame.id = s.frame.id) (hfirst : t.frame.meter.left ≤ s.frame.meter.left)
    (hrest : e = none → u.frame.meter.left ≤ t.frame.meter.left) :
    Metering e s u (steps' ++ steps) where
  trail := by rw [h'.trail, h.trail, List.append_assoc]
  metered := by
    have hmetered := h'.metered
    rw [hid] at hmetered
    exact h.metered.append hmetered (h.above rfl) hfirst
  above := by
    intro he n hn
    rw [Trail.lefts_append] at hn
    rcases List.mem_append.1 hn with hn | hn
    · exact Int.le_trans (hrest he) (h.above rfl n hn)
    · rw [← hid] at hn
      exact h'.above he n hn

/-- Whatever happens at the end, as long as it tells nothing of gas. -/
theorem then_mute (post : Trail) (h : Metering e s t steps)
    (htrail : u.world.trail = post ++ t.world.trail) (hopened : u.world.opened = t.world.opened)
    (hmeter : u.frame.meter = t.frame.meter) (mute : ∀ step ∈ post, step.Mute) :
    Metering e s u (post ++ steps) where
  trail := by rw [htrail, h.trail, List.append_assoc]
  metered := by
    rw [hopened]
    exact h.metered.append_mute mute
  above := by
    rw [Trail.lefts_append, (Trail.Untold.of_mute mute _).lefts, List.append_nil, hmeter]
    exact h.above

theorem admitted {env : Environment} {r : Request} {b : Bool} (h : Metering e s t steps)
    (admits : t.Admits env r b u) : ∃ steps, Metering e s u steps := by
  cases admits with
  | freely => exact ⟨steps, h⟩
  | locking => exact ⟨_, h.then_mute [_] rfl rfl rfl (Trail.mute_single ⟨rfl, rfl⟩)⟩

/-- A frame that has bound its request, as it begins to execute. -/
theorem entered {env : Environment} {r : Request} {b : Bool} {f g : Frame}
    (moved : s.frame.transition .binding = .ok f) (h : Metering none { s with frame := f } t steps)
    (admits : t.Admits env r b u) (moved' : u.frame.transition .executing = .ok g) :
    ∃ steps, Metering none s { u with frame := g } steps := by
  obtain ⟨steps, h⟩ := h.admitted admits
  exact ⟨steps, h.congr rfl rfl (Frame.same_transition moved).id.symm
    (Frame.meter_transition moved).symm rfl rfl (Frame.meter_transition moved')⟩

/-- A frame that binds its request and executes it, up to `v`. -/
theorem executed {env : Environment} {r : Request} {b : Bool} {f g : Frame} {v : Site}
    (moved : s.frame.transition .binding = .ok f)
    (bind : Run (.binding env r) { s with frame := f } none t) (admits : t.Admits env r b u)
    (moved' : u.frame.transition .executing = .ok g) (hid : s.frame.id < s.world.opened)
    (solvent : s.frame.meter.Solvent)
    (bound : f.id < s.world.opened → f.meter.Solvent →
      ∃ steps, Metering none { s with frame := f } t steps)
    (rest : g.id < u.world.opened → g.meter.Solvent →
      ∃ steps, Metering e { u with frame := g } v steps)
    (hrest : e = none → v.frame.meter.left ≤ g.meter.left) : ∃ steps, Metering e s v steps := by
  have hspends := (Site.Enters.mk moved bind admits moved').spends solvent
  have hsame : g.id = s.frame.id := (Frame.Same.entered moved bind admits moved').id
  obtain ⟨steps, h⟩ := bound (by rw [(Frame.same_transition moved).id]; exact hid)
    (by rw [Frame.meter_transition moved]; exact solvent)
  obtain ⟨steps, h⟩ := h.entered moved admits moved'
  have hle : s.world.opened ≤ u.world.opened := h.metered.le
  obtain ⟨steps', h'⟩ := rest (by omega) (solvent.of_spends hspends)
  exact ⟨_, h.trans h' hsame hspends.2.1 hrest⟩

end Metering

/-- The steps of a callee from its opening to its end, which is `post`. -/
def Opening.around {sc : Scope} {s : Site} (o : Opening sc s) (post steps : Trail) : Trail :=
  Closing.around post steps s.world.opened (some s.frame.id) o.child.depth o.child.ctx.self
    o.child.ctx.codeAddress o.meter.budget

/-- A callee, from the call on to the site `u` of its caller. -/
theorem Opening.metering {sc : Scope} {s t u : Site} {e e' : Option Fault} {steps post : Trail}
    (o : Opening sc s) (hid : s.frame.id < s.world.opened) (h : Metering e' o.site t steps)
    (htrail : u.world.trail = post ++ t.world.trail) (hopened : u.world.opened = t.world.opened)
    (mute : ∀ step ∈ post, step.Mute) : Metering e s u (o.around post steps) := by
  have hmetered : steps.Metered s.world.opened (s.world.opened + 1) t.world.opened
      o.meter.budget := by
    obtain ⟨n, hmeter, -⟩ := o.meter_eq
    have hlevel : o.meter.budget = o.meter.left := by rw [hmeter]
    rw [hlevel]
    exact h.metered
  have haround : (o.around post steps).Metered s.frame.id s.world.opened t.world.opened
      s.frame.meter.left ∧ (o.around post steps).lefts s.frame.id = [] :=
    hmetered.around mute hid s.frame.meter.left
  constructor
  case trail =>
    rw [htrail, h.trail, around, Closing.around, List.append_assoc, List.append_assoc]
    rfl
  case metered =>
    rw [hopened]
    exact haround.1
  case above =>
    intro _ n hn
    rw [haround.2] at hn
    cases hn

theorem Opening.metering_reverted {sc : Scope} {s t t' : Site} {e e' : Option Fault} {steps : Trail}
    (o : Opening sc s) (hid : s.frame.id < s.world.opened) (h : Metering e' o.site t steps)
    {c : Cause} {p : Bool} {left : Int} (ended : t.revert c p = .ok (.reverted c left, t')) :
    ∃ steps, Metering e s ((o.caller.leave t' o.parent).refund left) steps := by
  obtain ⟨f, g, storage, -, -, -, -, rfl⟩ := Site.revert_eq ended
  refine ⟨_, o.metering hid h (List.append_assoc _ [_] _).symm rfl ?_⟩
  exact Trail.mute_releases _ _ (Trail.mute_single ⟨rfl, rfl⟩)

/-- Wherever code gets to, its frame and the callees of it have told less and less gas. -/
theorem Run.metering {p : Place} {s t : Site} {e : Option Fault} (h : Run p s e t)
    (hid : s.frame.id < s.world.opened) (solvent : s.frame.meter.Solvent) :
    ∃ steps, Metering e s t steps := by
  induction h with
  | trans first rest ih ih' =>
    have hfirst := first.spends .none solvent
    have solvent' := solvent.of_spends hfirst
    obtain ⟨steps, h⟩ := ih hid solvent
    have hle := h.metered.le
    obtain ⟨steps', h'⟩ := ih' (by rw [first.same.id]; omega) solvent'
    refine ⟨_, h.trans h' first.same.id hfirst.2.1 fun he => ?_⟩
    exact (rest.spends (he ▸ .none) solvent').2.1
  | @boundary _ s =>
    refine ⟨[.boundary s.frame.id s.frame.meter.left], rfl, .boundary _ _ solvent.nonneg, ?_⟩
    intro _ n hn
    rw [Trail.lefts_boundary, List.mem_singleton] at hn
    exact Int.le_of_eq hn.symm
  | emit | destroy | jump | swallow => exact ⟨_, .step rfl rfl ⟨rfl, rfl⟩⟩
  | invoke _ _ _ _ ih =>
    obtain ⟨steps, h⟩ := ih hid solvent
    exact ⟨steps, h.congr rfl rfl rfl rfl rfl rfl rfl⟩
  | @guarded _ s _ _ _ t _ _ _ _ inner ih =>
    obtain ⟨steps, h⟩ := ih hid solvent
    have locked : Metering none s { s.lock s.frame.ctx.self with locals := ∅ }
        [.locked s.frame.id s.frame.ctx.self] := .step rfl rfl ⟨rfl, rfl⟩
    have ran := locked.trans h rfl (Int.le_refl _) fun he => (inner.spends (he ▸ .none) solvent).2.1
    exact ⟨_, ran.then_mute [_] rfl rfl rfl (Trail.mute_single ⟨rfl, rfl⟩)⟩
  | committed o inner ended ih =>
    obtain ⟨steps, h⟩ := ih (Nat.lt_succ_self _) o.solvent
    obtain ⟨d, storage, f, -, -, rfl, -⟩ := Site.commitTo_eq ended
    refine ⟨_, o.metering hid h (List.append_assoc _ [_] _).symm rfl ?_⟩
    exact Trail.mute_releases _ _ (Trail.mute_single ⟨rfl, rfl⟩)
  | passed o _ ended ih =>
    obtain ⟨steps, h⟩ := ih (Nat.lt_succ_self _) o.solvent
    exact o.metering_reverted hid h ended
  | caught _ _ o _ ended ih =>
    obtain ⟨steps, h⟩ := ih (Nat.lt_succ_self _) o.solvent
    obtain ⟨steps, h⟩ := o.metering_reverted hid h ended
    exact ⟨_, h.then_mute [_] rfl rfl rfl (Trail.mute_single ⟨rfl, rfl⟩)⟩
  | aborted o inner foreign ended ih =>
    obtain ⟨steps, h⟩ := ih (Nat.lt_succ_self _) o.solvent
    refine ⟨_, o.metering hid h (congrArg (· ++ _) (List.append_nil _).symm) rfl ?_⟩
    exact Trail.mute_releases _ _ fun _ hstep => nomatch hstep
  | start _ _ _ _ ih =>
    obtain ⟨steps, h⟩ := ih hid solvent
    exact ⟨steps, h.congr rfl rfl rfl rfl rfl rfl rfl⟩
  | refused moved _ ih =>
    rw [← (Frame.same_transition moved).id] at hid
    rw [← Frame.meter_transition moved] at solvent
    obtain ⟨steps, h⟩ := ih hid solvent
    exact ⟨steps, h.congr rfl rfl (Frame.same_transition moved).id.symm
      (Frame.meter_transition moved).symm rfl rfl rfl⟩
  | failed moved bind admits moved' _ ih ih' =>
    exact Metering.executed moved bind admits moved' hid solvent ih ih' fun he => nomatch he
  | finished moved bind admits moved' exec moved'' ih ih' =>
    have hbound := (Site.Enters.mk moved bind admits moved').spends solvent
    have hexec := exec.spends .none (solvent.of_spends hbound)
    obtain ⟨steps, h⟩ :=
      Metering.executed moved bind admits moved' hid solvent ih ih' fun _ => hexec.2.1
    exact ⟨steps, h.congr rfl rfl rfl rfl rfl rfl (Frame.meter_transition moved'')⟩
  | _ => exact ⟨_, .quiet rfl rfl⟩

end ContractVM
