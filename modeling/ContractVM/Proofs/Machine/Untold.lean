/-
What a machine does does not depend on what it was told.

`Machine.untold` is a machine without its trail.  Every operation of the host is blind to the
trail, as the code is that it runs, so two machines that are the same untold give the same
results and stay the same (`Operation.untold_after`).
-/
import ContractVM.Proofs.Exec.Blind
import ContractVM.Proofs.Machine.Operation

namespace ContractVM

/-- The machine as it is if `earlier` was told before. -/
def Machine.over (earlier : Trail) (m : Machine) : Machine := { m with trail := m.trail ++ earlier }

/-- The machine without what was told. -/
def Machine.untold (m : Machine) : Machine := { m with trail := [] }

theorem Machine.over_untold (m : Machine) : m.untold.over m.trail = m := rfl

theorem Machine.untold_over (earlier : Trail) (m : Machine) : (m.over earlier).untold = m.untold := rfl

@[simp] theorem Machine.untold_note (m : Machine) (step : Step) : (m.note step).untold = m.untold := rfl

def Host.endOver {α : Type} (earlier : Trail) :
    EStateM.Result Fault Machine α → EStateM.Result Fault Machine α
  | .ok a m => .ok a (m.over earlier)
  | .error f m => .error f (m.over earlier)

/-- An operation that does the same whatever was told before. -/
def Host.Blind {α : Type} (act : Host α) : Prop :=
  ∀ earlier m, act (m.over earlier) = Host.endOver earlier (act m)

theorem Host.left_endOver {α : Type} (earlier : Trail) (r : EStateM.Result Fault Machine α) :
    Host.left (Host.endOver earlier r) = (Host.left r).over earlier := by
  cases r <;> rfl

namespace Machine

/-! ## Transactions -/

theorem leave_over (earlier : Trail) (m : Machine) (t : Site) :
    (m.over earlier).leave (t.over earlier) = (m.leave t).over earlier := by
  have hunlock := t.over_unlock earlier t.frame.tokens
  exact congrArg (fun u : Site => ({ m with
    storage := u.world.storage, locks := u.world.locks, trail := u.world.trail } : Machine)) hunlock

theorem settleTop_over (earlier : Trail) (m : Machine) (t : Site) (f : Fault) :
    (m.over earlier).settleTop (t.over earlier) f = Host.endOver earlier (m.settleTop t f) := by
  unfold settleTop
  rw [Exec.settle_over]
  cases t.settle f with
  | ok out u => exact congrArg (EStateM.Result.ok _) (leave_over earlier m u)
  | error g u => exact congrArg (EStateM.Result.error g) (leave_over earlier m u)

theorem retireContract_over (earlier : Trail) (m : Machine) (a : Address) :
    retireContract (m.over earlier) a = (retireContract m a).map (Machine.over earlier) := by
  simp only [retireContract, Machine.over, bind, Except.bind]
  cases m.registry.terminate a with
  | error e => rfl
  | ok registry =>
    simp only
    cases m.storage.destroy a <;> rfl

theorem foldlM_retireContract_over (earlier : Trail) (m : Machine) (l : List Address) :
    l.foldlM retireContract (m.over earlier) =
      (l.foldlM retireContract m).map (Machine.over earlier) := by
  induction l generalizing m with
  | nil => rfl
  | cons a rest ih =>
    rw [List.foldlM_cons, List.foldlM_cons, retireContract_over]
    cases retireContract m a with
    | error e => rfl
    | ok retired => exact ih retired

theorem commitStaged_over (earlier : Trail) (m : Machine) (storage : Storage) (s : Staged) :
    commitStaged (m.over earlier) storage s =
      (commitStaged m storage s).map (Machine.over earlier) := by
  unfold commitStaged
  cases storage.commit with
  | error e => rfl
  | ok p =>
    have hretire := foldlM_retireContract_over earlier { m with storage := p.2 } s.retired
    show (s.retired.foldlM retireContract (Machine.over earlier { m with storage := p.2 }) >>= _) =
      Except.map _ (s.retired.foldlM retireContract { m with storage := p.2 } >>= _)
    rw [hretire]
    cases s.retired.foldlM retireContract { m with storage := p.2 } <;> rfl

theorem commitTop_over (earlier : Trail) (m : Machine) (t : Site) (v : Option Value) :
    (m.over earlier).commitTop (t.over earlier) v = Host.endOver earlier (m.commitTop t v) := by
  have hlog : (m.over earlier).log = m.log := rfl
  have hframe : (t.over earlier).frame = t.frame := rfl
  have hstorage : (t.over earlier).world.storage = t.world.storage := rfl
  unfold commitTop
  rw [hlog, hframe, hstorage]
  cases m.log.staged t.frame with
  | error e => exact settleTop_over earlier m t _
  | ok events =>
    simp only
    cases stage t.world.storage t.frame.terminations events with
    | error f => exact settleTop_over earlier m t f
    | ok staged =>
      simp only [commitStaged_over]
      cases commitStaged m t.world.storage staged with
      | error e => exact congrArg (EStateM.Result.error _) (leave_over earlier m t)
      | ok committed =>
        simp only [Except.map]
        cases (m.log.flush t.frame).2.2.transition .done with
        | error e => exact congrArg (EStateM.Result.error _) (leave_over earlier m t)
        | ok f =>
          exact congrArg (EStateM.Result.ok _)
            (leave_over earlier { committed with log := (m.log.flush t.frame).2.1 }
              (Site.note { (t.withStorage committed.storage) with frame := f }
                (.committed f.id f.meter.left)))

theorem runTop_blind (r : Request) : Host.Blind (runTop r) := by
  intro earlier m
  unfold runTop
  cases GasMeter.ofBudget? r.gas with
  | none => rfl
  | some meter =>
    have hran : Exec.attempt (runBody (nesting r.gas)) (m.over earlier).environment r
        ((m.over earlier).topSite ((m.over earlier).topFrame r meter)) = Exec.endOver earlier
          (Exec.attempt (runBody (nesting r.gas)) m.environment r (m.topSite (m.topFrame r meter))) :=
      Exec.attempt_blind (runBody_blind _) r earlier (m.topSite (m.topFrame r meter))
    simp only [hran]
    cases Exec.attempt (runBody (nesting r.gas)) m.environment r
      (m.topSite (m.topFrame r meter)) with
    | ok v t => exact commitTop_over earlier m t v
    | error f t => exact settleTop_over earlier m t f

/-! ## Operations of the host -/

theorem construct_blind (code : ContractCode) (c : Contract) (a deployer : Address) (args : Args)
    (value gas : Int) : Host.Blind (construct code c a deployer args value gas) := by
  intro earlier m
  unfold construct
  rw [runTop_blind _ earlier m]
  cases runTop (topRequest deployer a .construct args value gas) m with
  | error f m' => rfl
  | ok out m' =>
    obtain ⟨outcome, events⟩ := out
    cases outcome <;> rfl

theorem deploy_blind (code : ContractCode) (args : Args) (deployer : Address) (value : Int)
    (gas : Option Int) : Host.Blind (deploy code args deployer value gas) := by
  intro earlier m
  have hsettings : (m.over earlier).settings = m.settings := rfl
  have hhash : (m.over earlier).hash = m.hash := rfl
  have hregistry : (m.over earlier).registry = m.registry := rfl
  unfold deploy
  simp only [hsettings, hhash, hregistry]
  cases spendable "deploy" value (gas.getD m.settings.deployGas) with
  | error e => rfl
  | ok _ =>
    simp only
    rcases m.registry.nextAddress m.hash deployer with ⟨f | a, registry⟩
    · rfl
    · simp only
      cases registry.register a code with
      | error e => rfl
      | ok p => exact construct_blind code p.1 a deployer args value _ earlier { m with registry := p.2 }

theorem call_blind (sender target : Address) (fn : String) (args : Args) (value : Int)
    (gas : Option Int) : Host.Blind (call sender target fn args value gas) := by
  intro earlier m
  have hsettings : (m.over earlier).settings = m.settings := rfl
  unfold call
  simp only [hsettings]
  cases spendable "call" value (gas.getD m.settings.defaultGas) with
  | error e => rfl
  | ok _ =>
    simp only [runTop_blind _ earlier m]
    cases runTop (topRequest sender target (.named fn) args value
      (gas.getD m.settings.defaultGas)) m with
    | error f m' => rfl
    | ok out m' =>
      obtain ⟨outcome, events⟩ := out
      cases outcome <;> rfl

theorem commitHost_blind (change : Storage → Except Misuse Storage) (terminations : List Address) :
    Host.Blind (commitHost change terminations) := by
  intro earlier m
  have hstorage : (m.over earlier).storage = m.storage := rfl
  unfold commitHost
  rw [hstorage]
  cases change m.storage.snapshot with
  | error e => rfl
  | ok storage =>
    simp only
    cases stage storage terminations [] with
    | error f => rfl
    | ok staged =>
      simp only [commitStaged_over]
      cases commitStaged m storage staged <;> rfl

theorem fund_blind (a : Address) (amount : Int) : Host.Blind (fund a amount) := by
  intro earlier m
  unfold fund
  split
  · rfl
  · exact commitHost_blind _ _ earlier m

theorem terminate_blind (a beneficiary : Address) : Host.Blind (terminate a beneficiary) := by
  intro earlier m
  have hregistry : (m.over earlier).registry = m.registry := rfl
  unfold terminate
  rw [hregistry]
  split
  · rfl
  · rw [commitHost_blind _ _ earlier m]
    cases commitHost (fun s => if beneficiary = "" then .ok s else sweep a beneficiary s) [a] m <;> rfl

end Machine

/-- What an operation leaves, but for what is told, depends on nothing that was told. -/
theorem Operation.untold_after (m : Machine) (op : Operation) :
    (op.after m).untold = (op.after m.untold).untold := by
  have hover : op.after (m.untold.over m.trail) = (op.after m.untold).over m.trail := by
    cases op with
    | deploy code args deployer value gas =>
      exact (congrArg Host.left (Machine.deploy_blind code args deployer value gas _ _)).trans
        (Host.left_endOver _ _)
    | call sender target fn args value gas =>
      exact (congrArg Host.left (Machine.call_blind sender target fn args value gas _ _)).trans
        (Host.left_endOver _ _)
    | fund a amount =>
      exact (congrArg Host.left (Machine.fund_blind a amount _ _)).trans (Host.left_endOver _ _)
    | terminate a beneficiary =>
      exact (congrArg Host.left (Machine.terminate_blind a beneficiary _ _)).trans
        (Host.left_endOver _ _)
    | setBlock b => rfl
  rw [Machine.over_untold] at hover
  rw [hover, Machine.untold_over]

end ContractVM
