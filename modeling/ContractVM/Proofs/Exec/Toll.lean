/-
Gas bounds what frames do together.

Every frame but the first is opened by a call, and every call that opens one is worth
at least `Fee.call` to its caller even if the callee gives back all the gas it was
given, stipend included.  Every invocation costs `Fee.jump`.  `Trail.toll` adds up
these fees over a trail, and `Run.tolled` shows that code never runs up a toll beyond
the gas it has: not beyond what it spends if it goes on or its frame fails, and not
beyond what it had if a fault goes to the host.
-/
import ContractVM.Proofs.Exec.Boundaries
import ContractVM.Proofs.Exec.Grounded

namespace ContractVM

/-! ## The toll of a trail -/

namespace Step

/-- The depth at which a frame was opened. -/
def depth? : Step → Option Nat
  | opened _ _ depth _ _ _ => some depth
  | _ => none

def isInvocation : Step → Bool
  | invoked _ _ => true
  | _ => false

/-- A step that opens no frame and invokes no function. -/
structure TollFree (step : Step) : Prop where
  depth : step.depth? = none
  invocation : step.isInvocation = false

end Step

namespace Trail

/-- The depths at which the frames of a trail were opened. -/
def depths (t : Trail) : List Nat := t.filterMap Step.depth?

def invocations (t : Trail) : Nat := t.countP Step.isInvocation

/-- What the openings and invocations of a trail cost at least. -/
def toll (t : Trail) : Int := Fee.call * t.depths.length + Fee.jump * t.invocations

theorem depths_append (t u : Trail) : (t ++ u : Trail).depths = t.depths ++ u.depths :=
  List.filterMap_append

theorem invocations_append (t u : Trail) :
    (t ++ u : Trail).invocations = t.invocations + u.invocations :=
  List.countP_append

theorem toll_append (t u : Trail) : (t ++ u : Trail).toll = t.toll + u.toll := by
  unfold toll
  rw [depths_append, invocations_append, List.length_append, Int.natCast_add, Int.natCast_add,
    Int.mul_add, Int.mul_add]
  omega

theorem toll_opened (frame : Nat) (parent : Option Nat) (depth : Nat) (self code : Address)
    (budget : Int) : toll [.opened frame parent depth self code budget] = Fee.call := by
  show Fee.call * 1 + Fee.jump * 0 = Fee.call
  omega

theorem toll_invoked (frame : Nat) (fn : String) : toll [.invoked frame fn] = Fee.jump := by
  show Fee.call * 0 + Fee.jump * 1 = Fee.jump
  omega

section TollFree

variable {t : Trail} (h : ∀ step ∈ t, step.TollFree)
include h

theorem depths_tollFree : t.depths = [] :=
  List.filterMap_eq_nil_iff.2 fun step hstep => (h step hstep).depth

theorem invocations_tollFree : t.invocations = 0 :=
  List.countP_eq_zero.2 fun step hstep => by
    rw [(h step hstep).invocation]
    exact Bool.false_ne_true

theorem toll_tollFree : t.toll = 0 := by
  unfold toll
  rw [depths_tollFree h, invocations_tollFree h]
  rfl

end TollFree

theorem tollFree_single {step : Step} (h : step.TollFree) : ∀ step' ∈ [step], step'.TollFree := by
  intro step' hstep
  rw [List.mem_singleton.1 hstep]
  exact h

theorem tollFree_releases (f : Nat) (tokens : List LockToken) {t : Trail}
    (h : ∀ step ∈ t, step.TollFree) : ∀ step ∈ releases f tokens ++ t, step.TollFree := by
  intro step hstep
  rcases List.mem_append.1 hstep with hrelease | hstep
  · obtain ⟨l, -, rfl⟩ := List.mem_map.1 (List.mem_reverse.1 hrelease)
    exact ⟨rfl, rfl⟩
  · exact h step hstep

end Trail

/-! ## The toll of a run -/

/-- The steps that code takes from `s` to `t`, where it ends with `e`, have a toll that
it can pay and open no frame below `limit`. -/
structure Tolled (limit : Number) (e : Option Fault) (s t : Site) (steps : Trail) : Prop where
  trail : t.world.trail = steps ++ s.world.trail
  paid : Contained e → steps.toll ≤ s.frame.meter.left - t.frame.meter.left
  covered : steps.toll ≤ s.frame.meter.left
  shallow : ∀ d ∈ steps.depths, limit.lt (.ofNat d) = false

namespace Tolled

variable {limit : Number} {e : Option Fault} {s t u : Site} {steps steps' : Trail}

/-- Steps that are free of toll, on the way to a site with no more gas. -/
theorem free (htrail : t.world.trail = steps ++ s.world.trail)
    (h : ∀ step ∈ steps, step.TollFree) (solvent : s.frame.meter.Solvent)
    (hless : Contained e → t.frame.meter.left ≤ s.frame.meter.left) : Tolled limit e s t steps where
  trail := htrail
  paid := by
    intro contained
    have hle := hless contained
    rw [Trail.toll_tollFree h]
    omega
  covered := by
    rw [Trail.toll_tollFree h]
    exact solvent.nonneg
  shallow := by
    intro d hd
    rw [Trail.depths_tollFree h] at hd
    cases hd

theorem quiet (htrail : t.world.trail = s.world.trail) (solvent : s.frame.meter.Solvent)
    (hless : Contained e → t.frame.meter.left ≤ s.frame.meter.left) : Tolled limit e s t [] :=
  .free htrail (fun _ h => nomatch h) solvent hless

theorem step {step : Step} (htrail : t.world.trail = step :: s.world.trail) (h : step.TollFree)
    (solvent : s.frame.meter.Solvent) (hmeter : t.frame.meter = s.frame.meter) :
    Tolled limit e s t [step] :=
  .free htrail (Trail.tollFree_single h) solvent fun _ => Int.le_of_eq (congrArg GasMeter.left hmeter)

/-- The same steps, for sites that differ in nothing that the toll depends on. -/
theorem congr {s' t' : Site} (h : Tolled limit e s t steps) (hs : s'.world.trail = s.world.trail)
    (hmeter : s'.frame.meter = s.frame.meter) (ht : t'.world.trail = t.world.trail)
    (hmeter' : t'.frame.meter = t.frame.meter) : Tolled limit e s' t' steps where
  trail := by rw [ht, hs, h.trail]
  paid := by rw [hmeter, hmeter']; exact h.paid
  covered := by rw [hmeter]; exact h.covered
  shallow := h.shallow

theorem trans (h : Tolled limit none s t steps) (h' : Tolled limit e t u steps') :
    Tolled limit e s u (steps' ++ steps) where
  trail := by rw [h'.trail, h.trail, List.append_assoc]
  paid := by
    intro contained
    have hfirst := h.paid .none
    have hrest := h'.paid contained
    rw [Trail.toll_append]
    omega
  covered := by
    have hfirst := h.paid .none
    have hrest := h'.covered
    rw [Trail.toll_append]
    omega
  shallow := by
    intro d hd
    rw [Trail.depths_append, List.mem_append] at hd
    exact hd.elim (h'.shallow d) (h.shallow d)

/-- Whatever happens at the end, as long as it is free of toll. -/
theorem then_free (post : Trail) (h : Tolled limit e s t steps)
    (htrail : u.world.trail = post ++ t.world.trail) (hmeter : u.frame.meter = t.frame.meter)
    (free : ∀ step ∈ post, step.TollFree) : Tolled limit e s u (post ++ steps) where
  trail := by rw [htrail, h.trail, List.append_assoc]
  paid := by
    rw [Trail.toll_append, Trail.toll_tollFree free, hmeter, Int.zero_add]
    exact h.paid
  covered := by
    rw [Trail.toll_append, Trail.toll_tollFree free, Int.zero_add]
    exact h.covered
  shallow := by
    rw [Trail.depths_append, Trail.depths_tollFree free, List.nil_append]
    exact h.shallow

theorem admitted {env : Environment} {r : Request} {b : Bool} (h : Tolled limit e s t steps)
    (admits : t.Admits env r b u) : ∃ steps, Tolled limit e s u steps := by
  cases admits with
  | freely => exact ⟨steps, h⟩
  | locking =>
    exact ⟨_, h.then_free [_] rfl rfl (Trail.tollFree_single ⟨rfl, rfl⟩)⟩

/-- A frame that binds its request and executes it, up to `v`. -/
theorem executed {env : Environment} {r : Request} {b : Bool} {f g : Frame} {v : Site}
    (moved : s.frame.transition .binding = .ok f)
    (bind : Run (.binding env r) { s with frame := f } none t) (admits : t.Admits env r b u)
    (moved' : u.frame.transition .executing = .ok g) (solvent : s.frame.meter.Solvent)
    (bound : f.meter.Solvent → ∃ steps, Tolled limit none { s with frame := f } t steps)
    (rest : g.meter.Solvent → ∃ steps, Tolled limit e { u with frame := g } v steps) :
    ∃ steps, Tolled limit e s v steps := by
  have hspends := (Site.Enters.mk moved bind admits moved').spends solvent
  obtain ⟨steps, h⟩ := bound (by rw [Frame.meter_transition moved]; exact solvent)
  obtain ⟨steps, h⟩ := h.admitted admits
  have entered : Tolled limit none s { u with frame := g } steps :=
    h.congr rfl (Frame.meter_transition moved).symm rfl (Frame.meter_transition moved')
  obtain ⟨steps', h'⟩ := rest (solvent.of_spends hspends)
  exact ⟨_, entered.trans h'⟩

end Tolled

/-! ## Calls -/

namespace Opening

variable {sc : Scope} {s t u : Site} {e e' : Option Fault} {steps post : Trail}

theorem toll_around (o : Opening sc s) (free : ∀ step ∈ post, step.TollFree) (steps : Trail) :
    (o.around post steps).toll = steps.toll + Fee.call := by
  unfold around Closing.around
  rw [Trail.toll_append, Trail.toll_append, Trail.toll_tollFree free, Trail.toll_opened]
  omega

/-- A callee that was given `n` gas leaves its caller at least `Fee.call` short. -/
theorem left_paid_le (o : Opening sc s) :
    o.paid.left ≤ s.frame.meter.left - Fee.call - o.meter.left := by
  obtain ⟨n, hmeter, -, -, hpaid⟩ := o.meter_eq
  have hcovered := o.stipend_covered
  rw [hmeter, hpaid]
  show _ ≤ _ - _ - n
  omega

theorem left_meter_le (o : Opening sc s) : o.meter.left ≤ s.frame.meter.left - Fee.call := by
  obtain ⟨n, hmeter, -, hle, -⟩ := o.meter_eq
  have hcovered := o.stipend_covered
  have hrem := Int.ediv_nonneg o.rem_nonneg (by decide : (0 : Int) ≤ 64)
  rw [hmeter]
  show n ≤ _
  omega

/-- A callee, from the call on to the site `u` of its caller. -/
theorem tolled (o : Opening sc s)
    (h : Tolled sc.env.maxCallDepth e' o.site t steps)
    (htrail : u.world.trail = post ++ t.world.trail) (free : ∀ step ∈ post, step.TollFree)
    (hleft : Contained e → Contained e' ∧ u.frame.meter.left ≤ o.paid.left + t.frame.meter.left) :
    Tolled sc.env.maxCallDepth e s u (o.around post steps) where
  trail := by
    rw [htrail, h.trail, around, Closing.around, List.append_assoc, List.append_assoc]
    rfl
  paid := by
    intro contained
    obtain ⟨contained', hback⟩ := hleft contained
    have hcallee : steps.toll ≤ o.meter.left - t.frame.meter.left := h.paid contained'
    have hcaller := o.left_paid_le
    rw [o.toll_around free]
    omega
  covered := by
    have hcallee : steps.toll ≤ o.meter.left := h.covered
    have hcaller := o.left_meter_le
    rw [o.toll_around free]
    omega
  shallow := by
    intro d hd
    unfold around Closing.around at hd
    rw [Trail.depths_append, Trail.depths_append, Trail.depths_tollFree free, List.nil_append,
      List.mem_append] at hd
    rcases hd with hd | hd
    · exact h.shallow d hd
    · rw [List.mem_singleton.1 hd]
      exact o.shallow

theorem left_refund_le (o : Opening sc s) (n : Int) : (o.paid.refund n).left ≤ o.paid.left + n := by
  unfold GasMeter.refund
  show (if _ then _ else _) ≤ _
  split
  · omega
  · exact Int.le_refl _

theorem tolled_reverted (o : Opening sc s) {c : Cause} {p : Bool} {left : Int} {t' : Site}
    (inner : Run (.frame sc.env o.request) o.site (some (.raised c p)) t)
    (h : Tolled sc.env.maxCallDepth (some (.raised c p)) o.site t steps)
    (ended : t.revert c p = .ok (.reverted c left, t')) :
    ∃ steps, Tolled sc.env.maxCallDepth e s ((o.caller.leave t' o.parent).refund left) steps := by
  have hspends := inner.spends (.raised c p) o.solvent
  have hfail := ((o.solvent.of_spends hspends).fail (c.kind.policy p)).2
  rw [← Site.left_revert ended] at hfail
  have hmeter := congrArg Frame.meter
    (o.frame_undone ((Site.id_revert ended).trans inner.same.id))
  obtain ⟨f, g, storage, -, -, -, -, rfl⟩ := Site.revert_eq ended
  refine ⟨_, o.tolled h (List.append_assoc _ [_] _).symm
    (Trail.tollFree_releases _ _ (Trail.tollFree_single ⟨rfl, rfl⟩)) fun _ => ⟨.raised c p, ?_⟩⟩
  show (GasMeter.refund (o.caller.leave _ o.parent).frame.meter left).left ≤ _
  rw [hmeter]
  have hrefund := o.left_refund_le left
  show (o.paid.refund left).left ≤ _
  omega

end Opening

/-- Code runs up no toll that its gas does not cover, and opens no frame below the
limit of its environment. -/
theorem Run.tolled {p : Place} {s t : Site} {e : Option Fault} (h : Run p s e t)
    (solvent : s.frame.meter.Solvent) : ∃ steps, Tolled p.env.maxCallDepth e s t steps := by
  induction h with
  | trans first _ ih ih' =>
    obtain ⟨steps, h⟩ := ih solvent
    obtain ⟨steps', h'⟩ := ih' (solvent.of_spends (first.spends .none solvent))
    exact ⟨_, h.trans h'⟩
  | stuck | exhaust | overdraw =>
    refine ⟨_, .quiet rfl solvent fun contained => ?_⟩
    obtain ⟨c, p, hf⟩ := contained _ rfl
    cases hf
  | spend h => exact ⟨_, .quiet rfl solvent fun _ => h.2.1⟩
  | boundary | emit | destroy | swallow => exact ⟨_, .step rfl ⟨rfl, rfl⟩ solvent rfl⟩
  | write may h =>
    have hspends := (Run.write may h).spends .none solvent
    exact ⟨_, .quiet rfl solvent fun _ => hspends.2.1⟩
  | @jump _ s m fn h =>
    obtain ⟨hle, rfl⟩ := GasMeter.charge_eq_ok_iff.1 h
    refine ⟨[.invoked s.frame.id fn], rfl, fun _ => ?_, ?_, fun d hd => nomatch hd⟩
    · rw [Trail.toll_invoked]
      show _ ≤ s.frame.meter.left - (s.frame.meter.left - Fee.jump)
      omega
    · rw [Trail.toll_invoked]
      exact hle
  | invoke _ _ _ _ ih =>
    obtain ⟨steps, h⟩ := ih solvent
    exact ⟨steps, h.congr rfl rfl rfl rfl⟩
  | @guarded sc s _ _ _ _ _ _ _ _ _ ih =>
    obtain ⟨steps, h⟩ := ih solvent
    have locked : Tolled sc.env.maxCallDepth none s { s.lock s.frame.ctx.self with locals := ∅ }
        [.locked s.frame.id s.frame.ctx.self] := .step rfl ⟨rfl, rfl⟩ solvent rfl
    exact ⟨_, (locked.trans h).then_free [_] rfl rfl (Trail.tollFree_single ⟨rfl, rfl⟩)⟩
  | @committed _ s t t' parent o inner ended ih =>
    obtain ⟨steps, h⟩ := ih o.solvent
    have hmeter := congrArg Frame.meter (o.frame_committed inner.same.id ended)
    have hcallee := Site.meter_commitTo ended
    obtain ⟨d, storage, f, -, -, rfl, -⟩ := Site.commitTo_eq ended
    refine ⟨_, o.tolled h (List.append_assoc _ [_] _).symm
      (Trail.tollFree_releases _ _ (Trail.tollFree_single ⟨rfl, rfl⟩)) fun _ => ⟨.none, ?_⟩⟩
    show (GasMeter.refund (o.caller.leave _ parent).frame.meter _).left ≤ _
    rw [hmeter, hcallee]
    exact o.left_refund_le _
  | passed o inner ended ih =>
    obtain ⟨steps, h⟩ := ih o.solvent
    exact o.tolled_reverted inner h ended
  | caught _ _ o inner ended ih =>
    obtain ⟨steps, h⟩ := ih o.solvent
    obtain ⟨steps, h⟩ := o.tolled_reverted inner h ended
    exact ⟨_, h.then_free [_] rfl rfl (Trail.tollFree_single ⟨rfl, rfl⟩)⟩
  | aborted o _ foreign _ ih =>
    obtain ⟨steps, h⟩ := ih o.solvent
    refine ⟨_, o.tolled h (congrArg (· ++ _) (List.append_nil _).symm)
      (Trail.tollFree_releases _ _ fun _ hstep => nomatch hstep) fun contained => ?_⟩
    obtain ⟨c, p, hf⟩ := contained _ rfl
    exact absurd hf (foreign c p)
  | start _ _ entered _ ih =>
    obtain ⟨steps, h⟩ := ih solvent
    rw [Place.env, Bound.env_of_mem_scopes entered] at h
    exact ⟨steps, h.congr rfl rfl rfl rfl⟩
  | refused moved _ ih =>
    rw [← Frame.meter_transition moved] at solvent
    obtain ⟨steps, h⟩ := ih solvent
    exact ⟨steps, h.congr rfl (Frame.meter_transition moved).symm rfl rfl⟩
  | failed moved bind admits moved' _ ih ih' =>
    exact Tolled.executed moved bind admits moved' solvent ih ih'
  | finished moved bind admits moved' _ moved'' ih ih' =>
    obtain ⟨steps, h⟩ := Tolled.executed moved bind admits moved' solvent ih ih'
    exact ⟨steps, h.congr rfl rfl rfl (Frame.meter_transition moved'')⟩
  | _ => exact ⟨_, .quiet rfl solvent fun _ => Int.le_refl _⟩

end ContractVM
