/-
A machine never contradicts itself.

Most misuses are errors of the machine about itself: a phase that may not follow, a caller
with two callees, a layer that is missing or left over, a contract to retire that is not
there.  At every moment of a transaction the frame at hand has one layer on top of those of
its callers and no callee of its own (`Moment.standing`), so code ends in faults of code only,
and a frame that fails can always be undone.  What is left are the mistakes of a host
(`Operation.Mistake`), which an operation reports before it does anything.
-/
import ContractVM.Proofs.Machine.Locks
import ContractVM.Proofs.Machine.Tenancy

namespace ContractVM

/-! ## Faults -/

/-- An error of the machine about itself. -/
def Misuse.isInternal : Misuse → Bool
  | .negativeAmount .. | .negativeFund | .unknownContract _ => false
  | _ => true

/-- A fault that is no misuse at all. -/
def Fault.Clean (f : Fault) : Prop := ∀ e, f ≠ .misuse e

theorem Fault.OfCode.clean {f : Fault} (h : f.OfCode) : f.Clean := by
  rintro e rfl
  cases h

theorem Fault.Oversize.clean {f : Fault} (h : f.Oversize) : f.Clean := by
  rintro e rfl
  cases h

theorem Fault.Unwritten.clean {f : Fault} (h : f.Unwritten) : f.Clean := by
  rcases h with ⟨e, rfl⟩ | h
  · exact nofun
  · exact h.clean

theorem deriveAddress_fails (hash : Bytes → Bytes) (deployer : Address) (nonce : Int) :
    FailsOnly Fault.Clean (deriveAddress hash deployer nonce) := by
  have named (i : Rlp.Item) : FailsOnly Fault.Clean
      (do Codec.readAddress ((hash (← Codec.packed i)).drop 12)) := by
    refine ((Codec.packed_fails i).mono fun _ h => h.clean).bind fun b => ?_
    unfold Codec.readAddress
    split
    · exact .ok _
    · rintro f ⟨⟩
      exact nofun
  refine ((Codec.hexItem_fails _).mono fun _ h => h.clean).bind fun address => ?_
  by_cases hnonce : nonce < 0
  · rintro f hf
    simp only [if_pos hnonce] at hf
    cases hf
    exact nofun
  · simp only [if_neg hnonce]
    exact named _

/-! ## Moments -/

/-- Wherever code stands, the fault on its way is one of code. -/
theorem Moment.ofCode {p q : Place} {s u : Site} {K : List Activation} {e : Option Fault}
    (h : Moment p s K q e u) (hs : p.Standing s) : ∀ f, e = some f → f.OfCode := by
  induction h with
  | now h => exact h.ofCode hs.layers_ne hs.idle
  | later h _ ih => exact ih (h.standing hs)
  | invoke _ _ _ _ ih | guarded _ _ _ _ _ ih => exact ih ⟨hs.alive, hs.depth, hs.idle, hs.timely⟩
  | call o _ ih => exact ih (hs.opened o)
  | start found _ entered _ ih => exact ih (hs.started found entered)
  | opened => exact fun _ h => nomatch h
  | bind moved _ ih => exact ih (hs.bound moved)
  | execute entered _ ih => exact ih (hs.entered entered)
  | refused moved bind => exact bind.ofCode hs.layers_ne (hs.bound moved).idle
  | ended entered exec =>
    exact exec.ofCode (hs.entered entered).layers_ne (hs.entered entered).idle

theorem Storage.depth_rollback {s t : Storage} (h : s.rollback = .ok t) :
    s.depth = t.depth + 1 := by
  obtain ⟨top, rfl⟩ := rollback_eq_ok h
  rfl

/-- The frame at hand binds or executes with one layer more than it has callers.  It keeps
that layer when it turns to reverting, and whatever it fails with, undoing it drops that
layer and no other. -/
structure Site.Level (u : Site) : Prop where
  phase : u.frame.phase = .binding ∨ u.frame.phase = .executing
  depth : u.world.storage.depth = u.frame.depth + 1
  reverting : ∃ f, u.frame.transition .reverting = .ok f ∧ u.world.storage.depth = f.depth + 1
  undone : ∀ c p, ∃ left t, u.revert c p = .ok (.reverted c left, t) ∧
    t.world.storage.depth = u.frame.depth

theorem Place.Standing.level {p : Place} {u : Site} (h : p.Standing u)
    (inner : ∀ env r, p ≠ .frame env r) : u.Level := by
  have hphase : u.frame.phase = .binding ∨ u.frame.phase = .executing := by
    cases p with
    | frame env r => exact absurd rfl (inner env r)
    | binding => exact .inl h.timely
    | executing | body => exact .inr h.timely
  obtain ⟨f, hf⟩ := Frame.transition_of_mem (f := u.frame) .reverting (by
    rcases hphase with h | h <;> rw [h] <;> decide)
  refine ⟨hphase, h.depth, ⟨f, hf, ?_⟩, fun c p => ?_⟩
  · rw [h.depth, (Frame.same_transition hf).depth]
  · obtain ⟨left, t, hrevert⟩ := Exec.revert_eq_ok c p h.layers_ne hphase
    refine ⟨left, t, hrevert, ?_⟩
    obtain ⟨-, -, storage, -, hstorage, -, -, rfl⟩ := Site.revert_eq hrevert
    have hdepth := Storage.depth_rollback hstorage
    have hopen := h.depth
    show storage.depth = u.frame.depth
    omega

/-! ## Operations -/

namespace Machine

variable {m m' : Machine} {r : Request} {f : Fault}

theorem runTop_clean (idle : m.storage.layers = []) (direct : r.storageAddress = r.codeAddress)
    (h : runTop r m = .error f m') : f.Clean := by
  unfold runTop at h
  cases budget : GasMeter.ofBudget? r.gas with
  | none =>
    rw [budget] at h
    cases h
    exact nofun
  | some meter =>
    have lives := Exec.attempt_lives (s := m.topSite (m.topFrame r meter))
      (runBody_follows (nesting r.gas)) m.environment r rfl
    rw [budget] at h
    simp only at h
    cases hr : Exec.attempt (runBody (nesting r.gas)) m.environment r
        (m.topSite (m.topFrame r meter)) with
    | ok value t =>
      rw [hr] at lives h
      obtain ⟨top, -, ⟨g, trail, hentry, hcommit⟩ | ⟨m'', hcommit, -⟩⟩ :=
        commitTop_cases idle direct lives.1 lives.2 value
      · simp only [hcommit] at h
        cases h
        exact (Codec.encodeEntry_unwritten _ _ _ f hentry).clean
      · simp only [hcommit] at h
        cases h
    | error g t =>
      rw [hr] at lives h
      have topmost := Topmost.of_run lives.1
      have ofCode := lives.1.ofCode (List.cons_ne_nil _ _) rfl g rfl
      simp only at h
      by_cases hg : ∃ c p, g = .raised c p
      · obtain ⟨c, p, rfl⟩ := hg
        obtain ⟨left, t', trail, -, hsettle⟩ := settleTop_raised topmost c p lives.2
        rw [hsettle] at h
        cases h
      · obtain ⟨trail, hsettle⟩ := settleTop_foreign topmost fun c p h => hg ⟨c, p, h⟩
        rw [hsettle] at h
        cases h
        exact ofCode.clean

theorem construct_clean (idle : m.storage.layers = []) {code : ContractCode} {c : Contract}
    {a deployer : Address} {args : Args} {value gas : Int}
    (h : construct code c a deployer args value gas m = .error f m') : f.Clean := by
  unfold construct at h
  cases hr : runTop (topRequest deployer a .construct args value gas) m with
  | error g m'' =>
    rw [hr] at h
    cases h
    exact runTop_clean idle rfl hr
  | ok out m'' =>
    obtain ⟨outcome, events⟩ := out
    rw [hr] at h
    cases outcome with
    | reverted =>
      cases h
      exact nofun
    | committed => cases h

/-- A change of the host that fails, although it could be made, cannot be written. -/
theorem commitHost_clean {change : Storage → Except Misuse Storage} {terminations : List Address}
    (idle : m.storage.layers = []) {s : Storage} (changed : change m.storage.snapshot = .ok s)
    (above : m.storage.snapshot.Above s) (live : ∀ a ∈ terminations, m.registry.find? a ≠ none)
    (h : commitHost change terminations m = .error f m') : f.Clean := by
  obtain ⟨top, htop⟩ := above
  have hs : s = ⟨m.storage.persisted, [top]⟩ := by
    rw [htop]
    show (⟨m.storage.persisted, top :: m.storage.layers⟩ : Storage) = _
    rw [idle]
  subst hs
  unfold commitHost at h
  cases hentry : Codec.encodeEntry ⟨{ top.delta with destroyed := terminations.eraseDups }, []⟩ with
  | error g =>
    simp only [changed, stage_eq_error hentry] at h
    cases h
    exact (Codec.encodeEntry_unwritten _ 0 [] f hentry).clean
  | ok entry =>
    have live' : ∀ a ∈ terminations.eraseDups, m.registry.find? a ≠ none :=
      fun a ha => live a (List.mem_eraseDups.1 ha)
    simp only [changed, stage_eq_ok hentry,
      commitStaged_eq m top entry (Text.nodup_eraseDups _) live'] at h
    cases h

theorem spendable_eq_error {operation : String} {value gas : Int} {e : Misuse}
    (h : spendable operation value gas = .error e) :
    e = .negativeAmount operation "value" value ∨ e = .negativeAmount operation "gas" gas := by
  unfold spendable at h
  split at h
  · cases h
    exact .inl rfl
  · split at h
    · cases h
      exact .inr rfl
    · cases h

end Machine

open Machine

def Host.fault? {α : Type} (r : EStateM.Result Fault Machine α) : Option Fault :=
  match r with
  | .ok _ _ => none
  | .error f _ => some f

theorem Host.fault?_eq_some {α : Type} {r : EStateM.Result Fault Machine α} {f : Fault}
    (h : Host.fault? r = some f) : ∃ m, r = .error f m := by
  cases r with
  | ok a m => cases h
  | error g m =>
    cases h
    exact ⟨m, rfl⟩

namespace Operation

/-- What a host can get wrong with an operation. -/
inductive Mistake (m : Machine) : Operation → Misuse → Prop
  | deploy {code args deployer value gas e}
    (h : spendable "deploy" value (gas.getD m.settings.deployGas) = .error e) :
    Mistake m (.deploy code args deployer value gas) e
  | call {sender target fn args value gas e}
    (h : spendable "call" value (gas.getD m.settings.defaultGas) = .error e) :
    Mistake m (.call sender target fn args value gas) e
  | fund {a amount} (h : amount < 0) : Mistake m (.fund a amount) .negativeFund
  | terminate {a beneficiary} (h : m.registry.find? a = none) :
    Mistake m (.terminate a beneficiary) (.unknownContract a)

theorem Mistake.not_internal {m : Machine} {op : Operation} {e : Misuse} (h : op.Mistake m e) :
    e.isInternal = false := by
  cases h with
  | deploy h | call h => rcases spendable_eq_error h with rfl | rfl <;> rfl
  | fund | terminate => rfl

/-- The fault that an operation ends with, if it ends with one. -/
def thrown (m : Machine) : Operation → Option Fault
  | .deploy code args deployer value gas => Host.fault? (Machine.deploy code args deployer value gas m)
  | .call sender target fn args value gas =>
    Host.fault? (Machine.call sender target fn args value gas m)
  | .fund a amount => Host.fault? (Machine.fund a amount m)
  | .terminate a beneficiary => Host.fault? (Machine.terminate a beneficiary m)
  | .setBlock b => Host.fault? (Machine.setBlock b m)

variable {m : Machine} {e : Misuse}

theorem deploy_mistake (idle : m.storage.layers = []) {code : ContractCode} {args : Args}
    {deployer : Address} {value : Int} {gas : Option Int} {m' : Machine}
    (h : Machine.deploy code args deployer value gas m = .error (.misuse e) m') :
    Mistake m (.deploy code args deployer value gas) e := by
  have deploys := deploy_cases m code args deployer value gas
  generalize Machine.deploy code args deployer value gas m = res at h deploys
  cases deploys with
  | unpaid refused =>
    cases h
    exact .deploy refused
  | underived refused =>
    cases h
    exact absurd rfl (deriveAddress_fails _ _ _ _ refused e)
  | unregistered => cases h
  | @constructed _ _ registry =>
    exact absurd rfl (construct_clean (m := { m with registry := registry }) idle h e)

theorem call_mistake (idle : m.storage.layers = []) {sender target : Address} {fn : String}
    {args : Args} {value : Int} {gas : Option Int} {m' : Machine}
    (h : Machine.call sender target fn args value gas m = .error (.misuse e) m') :
    Mistake m (.call sender target fn args value gas) e := by
  unfold Machine.call at h
  simp only at h
  cases paid : spendable "call" value (gas.getD m.settings.defaultGas) with
  | error e' =>
    rw [paid] at h
    cases h
    exact .call paid
  | ok _ =>
    rw [paid] at h
    simp only at h
    cases hr : runTop (topRequest sender target (.named fn) args value
        (gas.getD m.settings.defaultGas)) m with
    | error f m'' =>
      rw [hr] at h
      cases h
      exact absurd rfl (runTop_clean idle rfl hr e)
    | ok out m'' =>
      obtain ⟨outcome, events⟩ := out
      rw [hr] at h
      cases outcome <;> cases h

theorem fund_mistake (idle : m.storage.layers = []) {a : Address} {amount : Int} {m' : Machine}
    (h : Machine.fund a amount m = .error (.misuse e) m') : Mistake m (.fund a amount) e := by
  unfold Machine.fund at h
  split at h
  · next hneg =>
    cases h
    exact .fund hneg
  · have none : ∀ b ∈ ([] : List Address), m.registry.find? b ≠ none := fun _ h => nomatch h
    exact absurd rfl (commitHost_clean idle (s := { m.storage with
      layers := Layer.empty.setBalance a (m.storage.balanceOf a + amount) :: m.storage.layers })
      rfl ⟨_, rfl⟩ none h e)

theorem terminate_mistake (idle : m.storage.layers = []) {a beneficiary : Address} {m' : Machine}
    (h : Machine.terminate a beneficiary m = .error (.misuse e) m') :
    Mistake m (.terminate a beneficiary) e := by
  unfold Machine.terminate at h
  split at h
  · next hdead =>
    cases h
    exact .terminate (Option.isNone_iff_eq_none.1 hdead)
  · next hlive =>
    have live : ∀ b ∈ [a], m.registry.find? b ≠ none := fun b hb hf =>
      hlive (by rw [← List.mem_singleton.1 hb, hf]; rfl)
    obtain ⟨n, hsweep⟩ := sweep_snapshot m.storage a beneficiary
    obtain ⟨s, changed, above⟩ : ∃ s,
        (if beneficiary = "" then .ok m.storage.snapshot
          else sweep a beneficiary m.storage.snapshot) = .ok s ∧ m.storage.snapshot.Above s := by
      split
      · exact ⟨_, rfl, .refl (List.cons_ne_nil _ _)⟩
      · exact ⟨_, hsweep, _, rfl⟩
    cases hc : commitHost (fun s => if beneficiary = "" then .ok s else sweep a beneficiary s) [a] m with
    | error f m'' =>
      rw [hc] at h
      cases h
      exact absurd rfl (commitHost_clean idle changed above live hc e)
    | ok _ m'' =>
      rw [hc] at h
      cases h

/-- An operation reports no misuse but the mistakes of its host. -/
theorem thrown_mistake (idle : m.storage.layers = []) {op : Operation}
    (h : op.thrown m = some (.misuse e)) : op.Mistake m e := by
  cases op with
  | deploy =>
    obtain ⟨m', hm'⟩ := Host.fault?_eq_some h
    exact deploy_mistake idle hm'
  | call =>
    obtain ⟨m', hm'⟩ := Host.fault?_eq_some h
    exact call_mistake idle hm'
  | fund =>
    obtain ⟨m', hm'⟩ := Host.fault?_eq_some h
    exact fund_mistake idle hm'
  | terminate =>
    obtain ⟨m', hm'⟩ := Host.fault?_eq_some h
    exact terminate_mistake idle hm'
  | setBlock => cases h

end Operation

namespace Machine

variable {m : Machine}

/-- Whatever a host does, no operation ends with an error of the machine about itself, and
none leaves a layer open.  At every moment of a transaction, and there is one for each of its
steps, the frame at hand is level with its layers and the fault on its way is one of code. -/
theorem never_inconsistent (reachable : m.Reachable) :
    (∀ op e, Operation.thrown m op = some (.misuse e) → op.Mistake m e ∧ e.isInternal = false) ∧
    (m.storage.layers = [] ∧ ∀ op : Operation, (op.after m).storage.layers = []) ∧
    ∀ (env : Environment) (r : Request) (meter : GasMeter), r.storageAddress = r.codeAddress →
      (∀ K q e u, Moment (.frame env r) (m.topSite (m.topFrame r meter)) K q e u →
        (∀ f, e = some f → f.OfCode) ∧ ((∀ env r, q ≠ .frame env r) → u.Level)) ∧
      ∀ depth, Seen (.frame env r) (m.topSite (m.topFrame r meter))
        (m.topSite (m.topFrame r meter)).world.trail
        (Exec.endSite (Exec.attempt (runBody depth) env r
          (m.topSite (m.topFrame r meter)))).world.trail := by
  have idle := reachable.idle
  refine ⟨fun op e h => ?_, ⟨idle, fun op => op.idle_after idle⟩, fun env r meter direct => ?_⟩
  · have mistake := Operation.thrown_mistake idle h
    exact ⟨mistake, mistake.not_internal⟩
  · have hs : (Place.frame env r).Standing (m.topSite (m.topFrame r meter)) :=
      ⟨fun found => by
        show env.registry.find? r.storageAddress ≠ none
        rw [direct]
        exact found, congrArg (fun l => List.length l + 1) idle, rfl, rfl⟩
    exact ⟨fun K q e u h => ⟨h.ofCode hs, fun inner => (h.standing inner hs).1.level inner⟩,
      fun depth => Exec.attempt_seen rfl depth⟩

/-! ## A mistake, and a function that invokes itself -/

theorem free_topSite (unlocked : m.locks = []) (env : Environment) (r : Request) (f : Frame) :
    (Place.frame env r).Free (m.topSite f) := fun c _ _ => by
  have hlocks : (m.topSite f).world.locks = [] := unlocked
  rw [hlocks]
  exact List.not_mem_nil

open Gate in
theorem never_inconsistent_gate :
    (Operation.fund Bell.address (-1)).Mistake deployed .negativeFund ∧
      ((Operation.call Address.zero Bell.address "enter" ∅ 0 none).after deployed).storage.layers = [] ∧
      ∃ K sc u, Moment (.frame deployed.environment request) top K (.body sc) none u ∧ u.Level := by
  have reachable : deployed.Reachable := ⟨.standard, _, [_], rfl⟩
  obtain ⟨mistakes, ⟨-, idle⟩, moments⟩ := never_inconsistent reachable
  have hthrown : (Operation.fund Bell.address (-1)).thrown deployed = some (.misuse .negativeFund) := by
    decide +kernel
  refine ⟨(mistakes _ _ hthrown).1, idle _, ?_⟩
  have hblocked : isBlocked (Exec.attempt (runBody 3) deployed.environment request top) = true := by
    decide +kernel
  obtain ⟨p, t, hres⟩ := isBlocked_iff.1 hblocked
  have free := free_topSite reachable.unlocked deployed.environment request
    (deployed.topFrame request ⟨100000, 100000⟩)
  obtain ⟨-, K, sc, u, a, hu, -⟩ := Exec.attempt_blames rfl free 3 _ p t hres rfl
  have hmoments := (moments deployed.environment request ⟨100000, 100000⟩ rfl).1
  have level : u.Level := (hmoments K _ none u hu).2 fun _ _ h => nomatch h
  exact ⟨K, sc, u, hu, level⟩

end Machine

end ContractVM
