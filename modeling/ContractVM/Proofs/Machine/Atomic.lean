/-
An operation of the host takes effect with one entry in the journal, or has none.

`Operation.Ends` lists what each operation can do to a machine, and `ends` says
that nothing else happens as long as no layer is open, which is so between
operations (`Reachable.idle`).  A deployment is the only operation that changes
something when it fails: the address it was to get stays used.
-/
import ContractVM.Proofs.Machine.Commit
import ContractVM.Proofs.Table

namespace ContractVM

namespace Registry

def numbered (r : Registry) (deployer : Address) : Registry :=
  { r with nonces := r.nonces.set deployer (r.nonce deployer + 1) }

/-- What a deployment that fails leaves of a registry: at most an address is used
up. -/
inductive Spent (hash : Bytes → Bytes) (r : Registry) (deployer : Address) : Registry → Prop
  | untouched : Spent hash r deployer r
  | numbered : Spent hash r deployer (r.numbered deployer)
  | retired {a} (derived : deriveAddress hash deployer (r.nonce deployer) = .ok a) :
    Spent hash r deployer { r.numbered deployer with retired := r.retired ++ [a] }

theorem Spent.contracts {hash : Bytes → Bytes} {r r' : Registry} {deployer : Address}
    (h : r.Spent hash deployer r') : r'.contracts = r.contracts := by
  cases h <;> rfl

/-- Retiring the contract that was just registered leaves the others. -/
theorem retire_register {r r' : Registry} {a : Address} {code : ContractCode} {c : Contract}
    (h : r.register a code = .ok (c, r')) : r'.retire a = { r with retired := r.retired ++ [a] } := by
  obtain ⟨hfree, hretired, -, rfl⟩ := register_eq_ok h
  have hcontains : r.contracts.contains a = false :=
    Option.isSome_eq_false_iff.2 (Option.isNone_iff_eq_none.2 hfree)
  unfold retire
  rw [if_neg hretired]
  show Registry.mk ((r.contracts.set a c).erase a) _ _ = _
  rw [Table.erase_set_of_not_contains c hcontains]

theorem find?_register {r r' : Registry} {a b : Address} {code : ContractCode} {c : Contract}
    (h : r.register a code = .ok (c, r')) :
    r'.find? b = if b = a then some c else r.find? b := by
  obtain ⟨-, -, -, rfl⟩ := register_eq_ok h
  exact Table.get?_set ..

end Registry

open Machine

/-! ## What each operation does -/

/-- What an operation does, and whether it takes effect. -/
inductive Operation.Ends (m : Machine) : Operation → Bool → Machine → Prop
  | failed {op} (trail : Trail) : Ends m op false { m with trail := trail }
  | undeployed {code args deployer value gas registry} (trail : Trail)
    (spent : m.registry.Spent m.hash deployer registry) :
    Ends m (.deploy code args deployer value gas) false
      { m with registry := registry, trail := trail }
  | deployed {code args deployer value gas a c registry limit meter t top m' trail}
    (derived : deriveAddress m.hash deployer (m.registry.nonce deployer) = .ok a)
    (registered : (m.registry.numbered deployer).register a code = .ok (c, registry))
    (ran : Run (.frame { m with registry := registry }.environment
        (topRequest deployer a .construct args value limit))
      ({ m with registry := registry }.topSite
        ({ m with registry := registry }.topFrame
          (topRequest deployer a .construct args value limit) meter)) none t)
    (storage : t.world.storage = ⟨m.storage.persisted, [top]⟩)
    (commits : { m with registry := registry }.Commits top t.frame.terminations t.frame.pending m') :
    Ends m (.deploy code args deployer value gas) true
      { m' with log := m'.log.declare a c.events.values, trail := trail }
  | called {sender target fn args value gas limit meter t top m' trail}
    (ran : Run (.frame m.environment (topRequest sender target (.named fn) args value limit))
      (m.topSite (m.topFrame (topRequest sender target (.named fn) args value limit) meter)) none t)
    (storage : t.world.storage = ⟨m.storage.persisted, [top]⟩)
    (commits : m.Commits top t.frame.terminations t.frame.pending m') :
    Ends m (.call sender target fn args value gas) true { m' with trail := trail }
  | funded {a amount m'}
    (commits : m.Commits (Layer.empty.setBalance a (m.storage.balanceOf a + amount)) [] [] m') :
    Ends m (.fund a amount) true m'
  | terminated {a beneficiary top m' trail} (live : m.registry.find? a ≠ none)
    (swept : top = .empty ∨ beneficiary ≠ "" ∧
      ∃ n, top = (Layer.empty.setBalance beneficiary n).setBalance a 0)
    (commits : m.Commits top [a] [] m') :
    Ends m (.terminate a beneficiary) true { m' with trail := trail }
  | blockSet {b} : Ends m (.setBlock b) true { m with block := b }

namespace Machine

variable {m : Machine}

/-- The steps that end the first frame of a transaction that commits. -/
def closing (t : Site) : Trail :=
  (t.frame.tokens.map fun l => Step.unlocked t.frame.id l.address).reverse ++
    [.committed t.frame.id t.frame.meter.left]

/-- The ways in which a call ends whose request is `r`. -/
inductive CallEnds (m : Machine) (r : Request) : EStateM.Result Fault Machine CallResult → Prop
  | failed {f} (trail : Trail) : CallEnds m r (.error f { m with trail := trail })
  | reverted {meter t t' c p left} (budget : GasMeter.ofBudget? r.gas = some meter)
    (ran : Run (.frame m.environment r) (m.topSite (m.topFrame r meter)) (some (.raised c p)) t)
    (ended : t.revert c p = .ok (.reverted c left, t')) (trail : Trail) :
    CallEnds m r (.ok (.reverted c.failure (r.gas - left)) { m with trail := trail })
  | committed {meter t top v m' target fn n} (budget : GasMeter.ofBudget? r.gas = some meter)
    (ran : Run (.frame m.environment r) (m.topSite (m.topFrame r meter)) none t)
    (storage : t.world.storage = ⟨m.storage.persisted, [top]⟩)
    (commits : m.Commits top t.frame.terminations t.frame.pending m')
    (trail : m'.trail = closing t ++ t.world.trail) :
    CallEnds m r (.ok (.committed v (r.gas - t.frame.meter.left)
        (EventLog.number m.log.size t.frame.pending))
      (m'.note (.callCommitted target fn (r.gas - t.frame.meter.left) n)))

theorem call_ends (idle : m.storage.layers = []) (sender target : Address) (fn : String)
    (args : Args) (value : Int) (gas : Option Int) :
    CallEnds m (topRequest sender target (.named fn) args value (gas.getD m.settings.defaultGas))
      (call sender target fn args value gas m) := by
  unfold call
  simp only
  cases spendable "call" value (gas.getD m.settings.defaultGas) with
  | error e => exact .failed (m := m) m.trail
  | ok _ =>
    have ends := runTop_ends (m := m)
      (r := topRequest sender target (.named fn) args value (gas.getD m.settings.defaultGas)) idle rfl
    simp only
    generalize runTop (topRequest sender target (.named fn) args value
      (gas.getD m.settings.defaultGas)) m = res at ends ⊢
    cases ends with
    | failed trail => exact .failed trail
    | reverted budget ran ended trail => exact .reverted budget ran ended _
    | committed budget ran storage commits trail =>
      exact .committed budget ran storage commits
        (trail.trans (List.append_assoc _ [_] _).symm)

/-- What a deployment comes to that may use `limit` gas: it is refused for what it offers, for
want of an address or for its code, or goes on to its constructors. -/
inductive Deploys (m : Machine) (code : ContractCode) (args : Args) (deployer : Address)
    (value limit : Int) : EStateM.Result Fault Machine Address → Prop
  | unpaid {e} (refused : spendable "deploy" value limit = .error e) :
    Deploys m code args deployer value limit (.error (.misuse e) m)
  | underived {f} (refused : deriveAddress m.hash deployer (m.registry.nonce deployer) = .error f) :
    Deploys m code args deployer value limit
      (.error f { m with registry := m.registry.numbered deployer })
  | unregistered {e} :
    Deploys m code args deployer value limit
      (.error (.refused e) { m with registry := m.registry.numbered deployer })
  | constructed {a c registry} (paid : spendable "deploy" value limit = .ok ())
    (derived : deriveAddress m.hash deployer (m.registry.nonce deployer) = .ok a)
    (registered : (m.registry.numbered deployer).register a code = .ok (c, registry)) :
    Deploys m code args deployer value limit
      (construct code c a deployer args value limit { m with registry := registry })

theorem deploy_cases (m : Machine) (code : ContractCode) (args : Args) (deployer : Address)
    (value : Int) (gas : Option Int) :
    Deploys m code args deployer value (gas.getD m.settings.deployGas)
      (deploy code args deployer value gas m) := by
  unfold deploy
  simp only [Registry.nextAddress]
  cases paid : spendable "deploy" value (gas.getD m.settings.deployGas) with
  | error e => exact .unpaid paid
  | ok _ =>
    cases derived : deriveAddress m.hash deployer (m.registry.nonce deployer) with
    | error f => exact .underived derived
    | ok a =>
      cases registered : (m.registry.numbered deployer).register a code with
      | error e =>
        rw [Registry.numbered] at registered
        simp only [registered]
        exact .unregistered
      | ok p =>
        have accepted := registered
        rw [Registry.numbered] at registered
        simp only [registered]
        exact .constructed paid derived accepted

/-- The ways in which a deployment ends that may use `limit` gas. -/
inductive DeployEnds (m : Machine) (code : ContractCode) (args : Args) (deployer : Address)
    (value limit : Int) : EStateM.Result Fault Machine Address → Prop
  | undeployed {f registry} (trail : Trail) (spent : m.registry.Spent m.hash deployer registry) :
    DeployEnds m code args deployer value limit
      (.error f { m with registry := registry, trail := trail })
  | deployed {a c registry meter t top m'}
    (derived : deriveAddress m.hash deployer (m.registry.nonce deployer) = .ok a)
    (registered : (m.registry.numbered deployer).register a code = .ok (c, registry))
    (ran : Run (.frame { m with registry := registry }.environment
        (topRequest deployer a .construct args value limit))
      ({ m with registry := registry }.topSite
        ({ m with registry := registry }.topFrame
          (topRequest deployer a .construct args value limit) meter)) none t)
    (storage : t.world.storage = ⟨m.storage.persisted, [top]⟩)
    (commits : { m with registry := registry }.Commits top t.frame.terminations t.frame.pending m')
    (trail : m'.trail = closing t ++ t.world.trail) :
    DeployEnds m code args deployer value limit (.ok a
      (note { m' with log := m'.log.declare a c.events.values }
        (.deployed code.name a (limit - t.frame.meter.left))))

theorem construct_ends (idle : m.storage.layers = []) {code : ContractCode} {a deployer : Address}
    {c : Contract} {registry : Registry}
    (derived : deriveAddress m.hash deployer (m.registry.nonce deployer) = .ok a)
    (registered : (m.registry.numbered deployer).register a code = .ok (c, registry))
    (args : Args) (value limit : Int) :
    DeployEnds m code args deployer value limit
      (construct code c a deployer args value limit { m with registry := registry }) := by
  have spent : m.registry.Spent m.hash deployer (registry.retire a) := by
    rw [Registry.retire_register registered]
    exact .retired derived
  have ends := runTop_ends (m := { m with registry := registry })
    (r := topRequest deployer a .construct args value limit) idle rfl
  unfold construct
  generalize runTop (topRequest deployer a .construct args value limit)
    { m with registry := registry } = res at ends ⊢
  cases ends with
  | failed trail => exact .undeployed trail spent
  | reverted _ _ _ trail => exact .undeployed _ spent
  | committed budget ran storage commits trail =>
    exact .deployed derived registered ran storage commits
      (trail.trans (List.append_assoc _ [_] _).symm)

theorem deploy_ends (idle : m.storage.layers = []) (code : ContractCode) (args : Args)
    (deployer : Address) (value : Int) (gas : Option Int) :
    DeployEnds m code args deployer value (gas.getD m.settings.deployGas)
      (deploy code args deployer value gas m) := by
  have deploys := deploy_cases m code args deployer value gas
  generalize deploy code args deployer value gas m = res at deploys ⊢
  cases deploys with
  | unpaid => exact .undeployed m.trail .untouched
  | underived | unregistered => exact .undeployed m.trail .numbered
  | constructed _ derived registered => exact construct_ends idle derived registered args value _

/-! ## Transactions that commit -/

theorem spendable_eq_ok_iff {operation : String} {value gas : Int} :
    spendable operation value gas = .ok () ↔ 0 ≤ value ∧ 0 ≤ gas := by
  unfold spendable
  split
  · exact ⟨fun h => (nomatch h), fun h => absurd h.1 (by omega)⟩
  · split
    · exact ⟨fun h => (nomatch h), fun h => absurd h.2 (by omega)⟩
    · exact ⟨fun _ => by omega, fun _ => rfl⟩

/-- A call that commits is a transaction that did. -/
theorem call_committed {m' : Machine} {sender target : Address} {fn : String} {args : Args}
    {value used : Int} {gas : Option Int} {v : Option Value} {logged : List LoggedEvent}
    (h : call sender target fn args value gas m = .ok (.committed v used logged) m') :
    (0 ≤ value ∧ 0 ≤ gas.getD m.settings.defaultGas) ∧
      ∃ left m'' step, runTop (topRequest sender target (.named fn) args value
        (gas.getD m.settings.defaultGas)) m = .ok (.committed v left, logged) m'' ∧
        m' = m''.note step := by
  unfold call at h
  simp only at h
  cases hs : spendable "call" value (gas.getD m.settings.defaultGas) with
  | error e =>
    rw [hs] at h
    cases h
  | ok _ =>
    rw [hs] at h
    simp only at h
    cases hr : runTop (topRequest sender target (.named fn) args value
        (gas.getD m.settings.defaultGas)) m with
    | error f m'' =>
      rw [hr] at h
      cases h
    | ok out m'' =>
      obtain ⟨outcome, events⟩ := out
      rw [hr] at h
      cases outcome with
      | reverted c left => cases h
      | committed v left =>
        cases h
        exact ⟨spendable_eq_ok_iff.1 hs, left, m'', _, rfl, rfl⟩

theorem construct_committed {m' : Machine} {code : ContractCode} {c : Contract}
    {a b deployer : Address} {args : Args} {value gas : Int}
    (h : construct code c a deployer args value gas m = .ok b m') :
    b = a ∧ ∃ v left logged m'' step,
      runTop (topRequest deployer a .construct args value gas) m =
        .ok (.committed v left, logged) m'' ∧
      m' = note { m'' with log := m''.log.declare a c.events.values } step := by
  unfold construct at h
  cases hr : runTop (topRequest deployer a .construct args value gas) m with
  | error f m'' =>
    rw [hr] at h
    cases h
  | ok out m'' =>
    obtain ⟨outcome, events⟩ := out
    rw [hr] at h
    cases outcome with
    | reverted c left => cases h
    | committed v left =>
      cases h
      exact ⟨rfl, v, left, events, m'', _, rfl, rfl⟩

/-- A deployment that commits is a transaction that did, with the contract registered. -/
theorem deploy_committed {m' : Machine} {code : ContractCode} {args : Args} {deployer a : Address}
    {value : Int} {gas : Option Int} (h : deploy code args deployer value gas m = .ok a m') :
    (0 ≤ value ∧ 0 ≤ gas.getD m.settings.deployGas) ∧
      ∃ c registry v left logged m'' step,
        deriveAddress m.hash deployer (m.registry.nonce deployer) = .ok a ∧
        (m.registry.numbered deployer).register a code = .ok (c, registry) ∧
        runTop (topRequest deployer a .construct args value (gas.getD m.settings.deployGas))
          { m with registry := registry } = .ok (.committed v left, logged) m'' ∧
        m' = note { m'' with log := m''.log.declare a c.events.values } step := by
  have deploys := deploy_cases m code args deployer value gas
  generalize deploy code args deployer value gas m = res at h deploys
  cases deploys with
  | unpaid | underived | unregistered => cases h
  | constructed paid derived registered =>
    obtain ⟨rfl, v, left, logged, m'', step, hr, hm'⟩ := construct_committed h
    exact ⟨spendable_eq_ok_iff.1 paid, _, _, v, left, logged, m'', step, derived, registered, hr, hm'⟩

/-! ## Changes by the host -/

theorem fund_ends (idle : m.storage.layers = []) (a : Address) (amount : Int) :
    Operation.Ends m (.fund a amount) (Host.gave (fund a amount m))
      (Host.left (fund a amount m)) := by
  unfold fund
  split
  · exact .failed (m := m) m.trail
  · have ends := commitHost_ends (m := m)
      (fun s => s.setBalance a (s.balanceOf a + amount)) [] idle
      (fun s h => Storage.above_updateTop h) (fun _ h => nomatch h)
    rcases ends with ⟨f, hf⟩ | ⟨top, m', hchange, hm', commits, -⟩
    · rw [hf]
      exact .failed (m := m) m.trail
    · rw [hm']
      have htop : top = Layer.empty.setBalance a (m.storage.balanceOf a + amount) :=
        (List.cons.inj (congrArg Storage.layers (Except.ok.inj hchange))).1.symm
      exact .funded (htop ▸ commits)

theorem sweep_snapshot (s : Storage) (a beneficiary : Address) :
    ∃ n, sweep a beneficiary s.snapshot =
      .ok { s with layers := ((Layer.empty.setBalance beneficiary n).setBalance a 0) :: s.layers } :=
  ⟨_, rfl⟩

/-- A contract is terminated, with the layer that sweeps it merged, or nothing happens. -/
theorem terminate_cases (idle : m.storage.layers = []) (a beneficiary : Address) :
    (∃ f, terminate a beneficiary m = .error f m) ∨
      ∃ top m', m.registry.find? a ≠ none ∧
        (if beneficiary = "" then .ok m.storage.snapshot
          else sweep a beneficiary m.storage.snapshot) = .ok ⟨m.storage.persisted, [top]⟩ ∧
        m.Commits top [a] [] m' ∧
        terminate a beneficiary m = .ok () (m'.note (.terminated a)) := by
  unfold terminate
  split
  · exact .inl ⟨_, rfl⟩
  · next hlive =>
    have live : m.registry.find? a ≠ none := fun h => hlive (by rw [h]; rfl)
    obtain ⟨n, hsweep⟩ := sweep_snapshot m.storage a beneficiary
    have ends := commitHost_ends (m := m)
      (fun s => if beneficiary = "" then .ok s else sweep a beneficiary s) [a] idle
      (fun s h => by
        split at h
        · cases h
          exact .refl (List.cons_ne_nil _ _)
        · rw [hsweep] at h
          cases h
          exact ⟨_, rfl⟩)
      (fun b hb => by rw [List.mem_singleton.1 hb]; exact live)
    rcases ends with ⟨f, hf⟩ | ⟨top, m', hchange, hm', commits, -⟩
    · rw [hf]
      exact .inl ⟨f, rfl⟩
    · rw [hm']
      exact .inr ⟨top, m', live, hchange, commits, rfl⟩

theorem terminate_ends (idle : m.storage.layers = []) (a beneficiary : Address) :
    Operation.Ends m (.terminate a beneficiary) (Host.gave (terminate a beneficiary m))
      (Host.left (terminate a beneficiary m)) := by
  rcases terminate_cases idle a beneficiary with ⟨f, hf⟩ | ⟨top, m', live, hchange, commits, hm'⟩
  · rw [hf]
    exact .failed (m := m) m.trail
  · rw [hm']
    refine .terminated live ?_ commits
    obtain ⟨n, hsweep⟩ := sweep_snapshot m.storage a beneficiary
    split at hchange
    · exact .inl (List.cons.inj (congrArg Storage.layers (Except.ok.inj hchange))).1.symm
    · next hb =>
      rw [hsweep] at hchange
      exact .inr ⟨hb, n, (List.cons.inj (congrArg Storage.layers (Except.ok.inj hchange))).1.symm⟩

end Machine

theorem Operation.ends {m : Machine} (idle : m.storage.layers = []) (op : Operation) :
    op.Ends m (op.succeeds m) (op.after m) := by
  cases op with
  | deploy code args deployer value gas =>
    have ends := deploy_ends idle code args deployer value gas
    unfold Operation.succeeds Operation.after
    simp only
    generalize Machine.deploy code args deployer value gas m = res at ends ⊢
    cases ends with
    | undeployed trail spent => exact .undeployed trail spent
    | deployed derived registered ran storage commits =>
      exact .deployed derived registered ran storage commits
  | call sender target fn args value gas =>
    have ends := call_ends idle sender target fn args value gas
    unfold Operation.succeeds Operation.after
    simp only
    generalize Machine.call sender target fn args value gas m = res at ends ⊢
    cases ends with
    | failed trail => exact .failed trail
    | reverted _ _ _ trail => exact .failed trail
    | committed _ ran storage commits => exact .called ran storage commits
  | fund a amount => exact fund_ends idle a amount
  | terminate a beneficiary => exact terminate_ends idle a beneficiary
  | setBlock b => exact .blockSet

/-! ## Between operations -/

theorem Operation.idle_after {m : Machine} (idle : m.storage.layers = []) (op : Operation) :
    (op.after m).storage.layers = [] := by
  have ends := op.ends idle
  generalize op.succeeds m = b at ends
  generalize op.after m = m' at ends ⊢
  cases ends with
  | failed => exact idle
  | undeployed => exact idle
  | deployed _ _ _ _ commits => exact congrArg Storage.layers commits.storage
  | called _ _ commits => exact congrArg Storage.layers commits.storage
  | funded commits => exact congrArg Storage.layers commits.storage
  | terminated _ _ commits => exact congrArg Storage.layers commits.storage
  | blockSet => exact idle

theorem Machine.idle_perform {m : Machine} (idle : m.storage.layers = []) (ops : List Operation) :
    (m.perform ops).storage.layers = [] := by
  induction ops generalizing m with
  | nil => exact idle
  | cons op rest ih => exact ih (op.idle_after idle)

theorem Machine.Reachable.idle {m : Machine} (h : m.Reachable) : m.storage.layers = [] := by
  obtain ⟨settings, hash, ops, rfl⟩ := h
  exact Machine.idle_perform rfl ops

theorem Machine.Reachable.after {m : Machine} (reachable : m.Reachable) (op : Operation) :
    (op.after m).Reachable := by
  obtain ⟨settings, hash, ops, rfl⟩ := reachable
  refine ⟨settings, hash, ops ++ [op], ?_⟩
  unfold perform
  rw [List.foldl_append]
  rfl

/-- What each of some operations keeps, on any machine that there can be, all of them keep. -/
theorem Machine.Reachable.perform_keeps {P : Machine → Prop} {m : Machine} (reachable : m.Reachable)
    (h : P m) {ops : List Operation}
    (step : ∀ op ∈ ops, ∀ m : Machine, m.Reachable → P m → P (op.after m)) : P (m.perform ops) := by
  induction ops generalizing m with
  | nil => exact h
  | cons op rest ih =>
    exact ih (reachable.after op) (step op List.mem_cons_self m reachable h) fun o ho =>
      step o (List.mem_cons_of_mem op ho)

/-! ## Atomicity -/

namespace Operation

def deployer? : Operation → Option Address
  | .deploy _ _ deployer _ _ => some deployer
  | _ => none

def isTransaction : Operation → Bool
  | .setBlock _ => false
  | _ => true

/-- `m'` is what an operation that took no effect leaves of `m`. -/
structure Kept (op : Operation) (m m' : Machine) : Prop where
  storage : m'.storage = m.storage
  log : m'.log = m.log
  journal : m'.journal = m.journal
  contracts : m'.registry.contracts = m.registry.contracts
  registry : match op.deployer? with
    | none => m'.registry = m.registry
    | some deployer => m.registry.Spent m.hash deployer m'.registry

theorem Kept.of_trail {op : Operation} {m : Machine} {trail : Trail} :
    op.Kept m { m with trail := trail } where
  storage := rfl
  log := rfl
  journal := rfl
  contracts := rfl
  registry := by
    split
    · rfl
    · exact .untouched

/-- An operation that fails or reverts changes nothing but what a deployment uses
up, and one that takes effect appends one entry to the journal. -/
theorem atomic {m : Machine} (reachable : m.Reachable) (op : Operation) :
    (op.succeeds m = false → op.Kept m (op.after m)) ∧
      (op.succeeds m = true → op.isTransaction = true →
        ∃ entry, (op.after m).journal = m.journal ++ [entry]) := by
  have ends := op.ends reachable.idle
  generalize op.succeeds m = b at ends
  generalize op.after m = m' at ends ⊢
  cases ends with
  | failed => exact ⟨fun _ => .of_trail, fun h => nomatch h⟩
  | undeployed _ spent => exact ⟨fun _ => ⟨rfl, rfl, rfl, spent.contracts, spent⟩, fun h => nomatch h⟩
  | deployed _ _ _ _ commits =>
    obtain ⟨entry, -, hjournal⟩ := commits.journal
    exact ⟨fun h => (nomatch h), fun _ _ => ⟨entry, hjournal⟩⟩
  | called _ _ commits =>
    obtain ⟨entry, -, hjournal⟩ := commits.journal
    exact ⟨fun h => (nomatch h), fun _ _ => ⟨entry, hjournal⟩⟩
  | funded commits =>
    obtain ⟨entry, -, hjournal⟩ := commits.journal
    exact ⟨fun h => (nomatch h), fun _ _ => ⟨entry, hjournal⟩⟩
  | terminated _ _ commits =>
    obtain ⟨entry, -, hjournal⟩ := commits.journal
    exact ⟨fun h => (nomatch h), fun _ _ => ⟨entry, hjournal⟩⟩
  | blockSet => exact ⟨fun h => (nomatch h), fun _ h => (nomatch h)⟩

/-! ## A call and a constructor that revert -/

namespace Vat

/-- A hash that gives an address for each count. -/
def counted (bytes : Bytes) : Bytes := List.replicate 31 0 ++ [bytes.getLastD 0]

def address : Address := "0x0000000000000000000000000000000000000080"

def next : Address := "0x0000000000000000000000000000000000000001"

def raise (level : Int) : Instr := .sstore (.const (.text "level")) (.const (.int level))

def pour : FunctionDef where
  name := "pour"
  visibility := .external
  mutability := .mutating
  body := [raise 1, .emit "Poured" ∅]

/-- Writes and emits before it reverts. -/
def spill : FunctionDef where
  name := "spill"
  visibility := .external
  mutability := .mutating
  body := [raise 2, .emit "Spilt" ∅, .revert "full"]

def code : ContractCode where
  name := "Vat"
  functions := [pour, spill]
  events := [⟨"Poured", []⟩, ⟨"Spilt", []⟩]

/-- A vat whose constructor writes and then reverts. -/
def leaky : ContractCode where
  name := "Leaky"
  constr := some { body := [raise 1, .revert "leaks"] }
  functions := []

def calls (fn : String) : Operation := .call Address.zero address fn ∅ 0 none

def deploys (code : ContractCode) : Operation := .deploy code ∅ Address.zero 0 none

def poured : Machine := (Machine.start .standard counted).perform [deploys code, calls "pour"]

end Vat

open Vat in
/-- A call that emitted is undone, as is the deployment of a contract that was registered; a
call that takes effect is journalled. -/
theorem atomic_vat :
    (Step.emitted 0 ⟨address, "Spilt", []⟩ ∈ ((calls "spill").after poured).trail ∧
      (calls "spill").Kept poured ((calls "spill").after poured)) ∧
    (Step.deployReverted "Leaky" next (.reverted "leaks") ∈ ((deploys leaky).after poured).trail ∧
      (deploys leaky).Kept poured ((deploys leaky).after poured)) ∧
    ∃ entry, ((calls "pour").after poured).journal = poured.journal ++ [entry] := by
  have reachable : poured.Reachable := ⟨.standard, counted, [deploys code, calls "pour"], rfl⟩
  have hspill : (calls "spill").succeeds poured = false ∧
      Step.emitted 0 ⟨address, "Spilt", []⟩ ∈ ((calls "spill").after poured).trail := by
    decide +kernel
  have hleaky : (deploys leaky).succeeds poured = false ∧
      Step.deployReverted "Leaky" next (.reverted "leaks") ∈ ((deploys leaky).after poured).trail := by
    decide +kernel
  have hpour : (calls "pour").succeeds poured = true := by decide +kernel
  exact ⟨⟨hspill.2, (atomic reachable _).1 hspill.1⟩, ⟨hleaky.2, (atomic reachable _).1 hleaky.1⟩,
    (atomic reachable _).2 hpour rfl⟩

end Operation

end ContractVM
