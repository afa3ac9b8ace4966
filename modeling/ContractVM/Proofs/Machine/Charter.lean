/-
Machines under a charter.

A machine whose contracts all meet a charter, and whose trail it allows, runs transactions and
changes of the host without leaving it (`Operation.allowed_after`), and what it logs when a
transaction commits is what the charter lets be logged (`runTop_logs`).
-/
import ContractVM.Proofs.Exec.CharterCode
import ContractVM.Proofs.Machine.Unsigned

namespace ContractVM

variable {T : Charter}

namespace Machine

variable {m m' : Machine} {r : Request} {t : Site}

/-- The first frame of a transaction ends as the charter allows. -/
theorem attempt_leads (contracts : m.registry.Every fun _ c => c.Meets T)
    (htrail : m.trail.Allowed T) (r : Request) (meter : GasMeter) (depth : Nat) :
    Exec.Leads T (Exec.attempt (runBody depth) m.environment r (m.topSite (m.topFrame r meter))) := by
  have henv : m.environment.Under T := ⟨contracts⟩
  exact Exec.attempt_leads (runBody_obeys depth) henv r
    ⟨fun _ he => absurd he List.not_mem_nil, trivial, htrail⟩ ⟨_, _, _, _, _, _, rfl⟩

theorem leave_allowed (m : Machine) (h : t.world.trail.Allowed T) : (m.leave t).trail.Allowed T :=
  h.releases t.frame.id t.frame.tokens

theorem settleTop_allowed (m : Machine) {f : Fault} (h : Exec.Leads T (.error f t)) :
    (Host.left (m.settleTop t f)).trail.Allowed T := by
  unfold settleTop
  cases hr : t.settle f with
  | ok out t' => exact leave_allowed m (Exec.settle_allowed h.1 h.2 hr).1
  | error g t' => exact leave_allowed m (Exec.settle_foreign_fault h.1 hr).1

/-- Numbered events that cannot be staged are no failure of a frame. -/
theorem stage_foreign {storage : Storage} {terminations : List Address} {base : Nat}
    {events : List Event} {f : Fault}
    (h : stage storage terminations (EventLog.number base events) = .error f) (c : Cause) (p : Bool) :
    f ≠ .raised c p := by
  unfold stage at h
  split at h
  · cases h
    exact nofun
  · simp only at h
    split at h
    · next hentry =>
      cases h
      exact (Codec.encodeEntry_unwritten _ _ _ f hentry).foreign c p
    · cases h

theorem commitTop_allowed (m : Machine) (ht : t.Under T) (v : Option Value) :
    (Host.left (m.commitTop t v)).trail.Allowed T := by
  unfold commitTop
  cases hlogged : m.log.staged t.frame with
  | error e => exact settleTop_allowed m ⟨ht, nofun⟩
  | ok events =>
    have hevents : events = EventLog.number m.log.size t.frame.pending := by
      unfold EventLog.staged at hlogged
      split at hlogged <;> cases hlogged
      rfl
    simp only
    cases hstage : stage t.world.storage t.frame.terminations events with
    | error f =>
      rw [hevents] at hstage
      exact settleTop_allowed m ⟨ht, fun c p heq => absurd heq (stage_foreign hstage c p)⟩
    | ok staged =>
      simp only
      cases commitStaged m t.world.storage staged with
      | error e => exact leave_allowed m ht.trail
      | ok committed =>
        simp only
        cases (m.log.flush t.frame).2.2.transition .done with
        | error e => exact leave_allowed m ht.trail
        | ok f => exact leave_allowed _ ⟨trivial, ht.trail⟩

theorem runTop_allowed (contracts : m.registry.Every fun _ c => c.Meets T)
    (htrail : m.trail.Allowed T) (r : Request) : (Host.left (runTop r m)).trail.Allowed T := by
  unfold runTop
  cases GasMeter.ofBudget? r.gas with
  | none => exact htrail
  | some meter =>
    have leads := attempt_leads contracts htrail r meter (nesting r.gas)
    simp only
    cases hr : Exec.attempt (runBody (nesting r.gas)) m.environment r
        (m.topSite (m.topFrame r meter)) with
    | ok v t =>
      rw [hr] at leads
      exact commitTop_allowed m leads v
    | error f t =>
      rw [hr] at leads
      exact settleTop_allowed m leads

theorem construct_allowed (contracts : m.registry.Every fun _ c => c.Meets T)
    (htrail : m.trail.Allowed T) (code : ContractCode) (c : Contract) (a deployer : Address)
    (args : Args) (value gas : Int) :
    (Host.left (construct code c a deployer args value gas m)).trail.Allowed T := by
  have hrun := runTop_allowed contracts htrail (topRequest deployer a .construct args value gas)
  unfold construct
  split
  · next hr =>
    rw [hr] at hrun
    exact hrun
  · next hr =>
    rw [hr] at hrun
    exact ⟨trivial, hrun⟩
  · next hr =>
    rw [hr] at hrun
    exact ⟨trivial, hrun⟩

/-- What a transaction logs that commits, the charter lets be logged. -/
theorem runTop_logs (idle : m.storage.layers = []) (direct : r.storageAddress = r.codeAddress)
    (contracts : m.registry.Every fun _ c => c.Meets T) (htrail : m.trail.Allowed T)
    {v : Option Value} {left : Int} {logged : List LoggedEvent}
    (hr : runTop r m = .ok (.committed v left, logged) m') :
    ∃ top terminations events, m.Commits top terminations events m' ∧ ∀ e ∈ events, T.logs e := by
  obtain ⟨meter, t, top, -, hattempt, -, -, commits⟩ := runTop_committed idle direct hr
  have leads := attempt_leads contracts htrail r meter (nesting r.gas)
  rw [hattempt] at leads
  exact ⟨top, _, _, commits, leads.pending⟩

theorem fund_allowed (htrail : m.trail.Allowed T) (a : Address) (n : Int) :
    (Host.left (fund a n m)).trail.Allowed T := by
  unfold fund
  split
  · exact htrail
  · obtain ⟨registry, storage, journal, hleft⟩ :=
      left_commitHost m (fun s => s.setBalance a (s.balanceOf a + n)) []
    rw [hleft]
    exact htrail

theorem terminate_allowed (htrail : m.trail.Allowed T) (a beneficiary : Address) :
    (Host.left (terminate a beneficiary m)).trail.Allowed T := by
  unfold terminate
  split
  · exact htrail
  · obtain ⟨registry, storage, journal, hleft⟩ := left_commitHost m
      (fun s => if beneficiary = "" then .ok s else sweep a beneficiary s) [a]
    have hsame := congrArg Machine.trail hleft
    split
    · next hr =>
      rw [hr] at hsame
      exact hsame ▸ htrail
    · next hr =>
      rw [hr] at hsame
      exact ⟨trivial, hsame ▸ htrail⟩

theorem call_allowed (contracts : m.registry.Every fun _ c => c.Meets T)
    (htrail : m.trail.Allowed T) (sender target : Address) (fn : String) (args : Args) (value : Int)
    (gas : Option Int) :
    (Host.left (call sender target fn args value gas m)).trail.Allowed T := by
  have hrun := runTop_allowed contracts htrail (topRequest sender target (.named fn) args value
    (gas.getD m.settings.defaultGas))
  unfold call
  simp only
  split
  · exact htrail
  · split
    · next hr =>
      rw [hr] at hrun
      exact hrun
    · next hr =>
      rw [hr] at hrun
      exact ⟨trivial, hrun⟩
    · next hr =>
      rw [hr] at hrun
      exact ⟨trivial, hrun⟩

theorem deploy_allowed (contracts : m.registry.Every fun _ c => c.Meets T)
    (htrail : m.trail.Allowed T) {code : ContractCode}
    (hcode : ∀ a c, Contract.flatten a code = .ok c → c.Meets T) (args : Args) (deployer : Address)
    (value : Int) (gas : Option Int) :
    (Host.left (deploy code args deployer value gas m)).trail.Allowed T := by
  have deploys := deploy_cases m code args deployer value gas
  generalize deploy code args deployer value gas m = res at deploys ⊢
  cases deploys with
  | unpaid | underived | unregistered => exact htrail
  | @constructed a c registry _ _ registered =>
    have hcontracts : registry.Every fun _ c => c.Meets T :=
      Registry.Every.register (r := m.registry.numbered deployer) contracts registered
        (hcode a c (Registry.flatten_of_register registered))
    exact construct_allowed (m := { m with registry := registry }) hcontracts htrail ..

end Machine

/-- Whatever the host does, the trail stays allowed, if what it deploys meets the charter. -/
theorem Operation.allowed_after {m : Machine} (contracts : m.registry.Every fun _ c => c.Meets T)
    (htrail : m.trail.Allowed T) (op : Operation)
    (hop : ∀ code a c, op.code? = some code → Contract.flatten a code = .ok c → c.Meets T) :
    (op.after m).trail.Allowed T := by
  cases op with
  | setBlock b => exact htrail
  | fund a n => exact Machine.fund_allowed htrail a n
  | terminate a beneficiary => exact Machine.terminate_allowed htrail a beneficiary
  | call sender target fn args value gas =>
    exact Machine.call_allowed contracts htrail sender target fn args value gas
  | deploy code args deployer value gas =>
    exact Machine.deploy_allowed contracts htrail (fun a c => hop code a c rfl) args deployer value gas

/-- A host that deploys only what meets the charter stays under it. -/
theorem Machine.perform_allowed (settings : Settings) (hash : Bytes → Bytes) (ops : List Operation)
    (hops : ∀ op ∈ ops, ∀ code a c, op.code? = some code → Contract.flatten a code = .ok c →
      c.Meets T) :
    ((start settings hash).perform ops).trail.Allowed T ∧
      ((start settings hash).perform ops).registry.Every fun _ c => c.Meets T := by
  have fresh : (start settings hash).Reachable := ⟨settings, hash, [], rfl⟩
  refine fresh.perform_keeps
    (P := fun m => m.trail.Allowed T ∧ m.registry.Every fun _ c => c.Meets T)
    ⟨trivial, fun _ _ h => nomatch h⟩ fun op hop m reachable h => ⟨?_, ?_⟩
  · exact op.allowed_after h.2 h.1 (hops op hop)
  · exact op.every_after reachable.idle h.2 fun code a c hcode _ => hops op hop code a c hcode

end ContractVM
