/-
An address is used once.

A registry changes in three ways: it counts a deployment, registers a contract at an address
that nobody has had, or retires an address (`Registry.Step`).  None of them makes a retired
address live or forgets one, so whatever a host does, an address is unused, then live, then
retired.  Storage keeps up with it: a commit merges slots of contracts that were live while it
ran and erases those of the ones it retires, so only live contracts have slots.

`Machine.OutOfUse` says what it means for an address to be retired, and
`addresses_used_once` puts all of it together.
-/
import Mathlib.Logic.Relation
import ContractVM.Proofs.Exec.Standing
import ContractVM.Proofs.Machine.Caught
import ContractVM.Proofs.Machine.Footprint
import ContractVM.Proofs.Machine.Root

namespace ContractVM

/-! ## Registries -/

namespace Registry

/-- A contract had the address at some time. -/
def Used (r : Registry) (a : Address) : Prop := r.find? a ≠ none ∨ a ∈ r.retired

/-- No contract is live at a retired address. -/
def Apart (r : Registry) : Prop := ∀ a, r.find? a ≠ none → a ∉ r.retired

inductive Step (r : Registry) : Registry → Prop
  | numbered (deployer : Address) : Step r (r.numbered deployer)
  | register {a code c r'} (h : r.register a code = .ok (c, r')) : Step r r'
  | retire (a : Address) : Step r (r.retire a)

/-- What a host does to a registry. -/
abbrev Steps : Registry → Registry → Prop := Relation.ReflTransGen Step

variable {r r' : Registry} {a b : Address}

theorem unused_of_register {code : ContractCode} {c : Contract}
    (h : r.register a code = .ok (c, r')) : ¬ r.Used a := by
  obtain ⟨hfree, hretired, -, -⟩ := register_eq_ok h
  rintro (live | retired)
  · exact live hfree
  · exact hretired retired

theorem retired_register {code : ContractCode} {c : Contract}
    (h : r.register a code = .ok (c, r')) : r'.retired = r.retired := by
  obtain ⟨-, -, -, rfl⟩ := register_eq_ok h
  rfl

theorem Step.apart (h : r.Step r') (apart : r.Apart) : r'.Apart := by
  cases h with
  | numbered => exact apart
  | @register a _ c _ h =>
    intro b live
    rw [retired_register h]
    by_cases hb : b = a
    · exact fun retired => unused_of_register h (.inr (hb ▸ retired))
    · rw [find?_register h, if_neg hb] at live
      exact apart b live
  | retire a =>
    intro b live
    rw [find?_retire] at live
    rw [mem_retired_retire]
    by_cases hb : b = a
    · rw [if_pos hb] at live
      exact absurd rfl live
    · rw [if_neg hb] at live
      exact fun retired => retired.elim (apart b live) hb

theorem Step.retired (h : r.Step r') (ha : a ∈ r.retired) : a ∈ r'.retired := by
  cases h with
  | numbered => exact ha
  | register h => exact retired_register h ▸ ha
  | retire b => exact (mem_retired_retire r b a).2 (.inl ha)

theorem Step.used (h : r.Step r') (ha : r.Used a) : r'.Used a := by
  rcases ha with live | retired
  · cases h with
    | numbered => exact .inl live
    | @register b _ c _ h =>
      refine .inl ?_
      rw [find?_register h]
      split
      · exact Option.some_ne_none c
      · exact live
    | retire b =>
      unfold Used
      rw [find?_retire, mem_retired_retire]
      by_cases hb : a = b
      · exact .inr (.inr hb)
      · exact .inl (by rw [if_neg hb]; exact live)
  · exact .inr (h.retired retired)

namespace Steps

theorem apart (h : r.Steps r') (apart : r.Apart) : r'.Apart := by
  induction h with
  | refl => exact apart
  | tail _ step ih => exact step.apart ih

theorem retired (h : r.Steps r') (ha : a ∈ r.retired) : a ∈ r'.retired := by
  induction h with
  | refl => exact ha
  | tail _ step ih => exact step.retired ih

theorem used (h : r.Steps r') (ha : r.Used a) : r'.Used a := by
  induction h with
  | refl => exact ha
  | tail _ step ih => exact step.used ih

theorem foldl_retire (l : List Address) (r : Registry) : r.Steps (l.foldl retire r) := by
  induction l generalizing r with
  | nil => exact .refl
  | cons a rest ih => exact .head (.retire a) (ih (r.retire a))

end Steps

end Registry

/-! ## Layers -/

namespace Layer

variable {l : Layer} {slot slot' bal : Address → Prop}

theorem Within.mono (h : l.Within slot bal) (hslot : ∀ a, slot a → slot' a) : l.Within slot' bal where
  slots := fun e he => ⟨hslot _ (h.slots e he).1, (h.slots e he).2⟩
  balances := h.balances

theorem get?_slots_foldl_erase (as : List Address) (l : Layer) (a : Address) :
    (as.foldl erase l).slots.get? a = if a ∈ as then none else l.slots.get? a :=
  Table.foldl_drop (·.slots.get? a) (fun _ _ => Table.get?_erase ..) as l

/-- Accounts that are erased have no slots left. -/
theorem Within.erased (h : l.Within slot bal) (as : List Address) :
    (as.foldl erase l).Within (fun a => slot a ∧ a ∉ as) bal where
  slots := by
    intro e he
    obtain ⟨hslot, hfull⟩ := (h.foldl_erase as).slots e he
    have hget := Table.mem_entries_iff.1 he
    rw [get?_slots_foldl_erase] at hget
    refine ⟨⟨hslot, fun ha => ?_⟩, hfull⟩
    rw [if_pos ha] at hget
    cases hget
  balances := (h.foldl_erase as).balances

theorem Within.slots_eq_none (h : l.Within slot bal) {a : Address} (ha : ¬ slot a) :
    l.slots.get? a = none := by
  cases hs : l.slots.get? a with
  | none => rfl
  | some slots => exact absurd (h.slots (a, slots) (Table.mem_entries_iff.2 hs)).1 ha

end Layer

/-! ## Operations -/

namespace Machine

variable {m m' : Machine} {a : Address}

/-- No address is live and retired, and only live contracts have slots. -/
structure Tenanted (m : Machine) : Prop where
  apart : m.registry.Apart
  slots : m.storage.persisted.Within (fun a => m.registry.find? a ≠ none) (fun _ => True)

theorem construct_fails (idle : m.storage.layers = []) {code : ContractCode} {c : Contract}
    {deployer : Address} {args : Args} {value gas : Int} {f : Fault}
    (h : construct code c a deployer args value gas m = .error f m') :
    m'.registry = m.registry.retire a := by
  have ends := runTop_ends (m := m) (r := topRequest deployer a .construct args value gas) idle rfl
  unfold construct at h
  generalize runTop (topRequest deployer a .construct args value gas) m = res at ends h
  cases ends with
  | failed | reverted =>
    cases h
    rfl
  | committed => cases h

theorem deploy_eq_construct {code : ContractCode} {deployer : Address} {value : Int}
    {gas : Option Int} {c : Contract} {registry : Registry}
    (paid : spendable "deploy" value (gas.getD m.settings.deployGas) = .ok ())
    (derived : deriveAddress m.hash deployer (m.registry.nonce deployer) = .ok a)
    (registered : (m.registry.numbered deployer).register a code = .ok (c, registry)) (args : Args) :
    deploy code args deployer value gas m = construct code c a deployer args value
      (gas.getD m.settings.deployGas) { m with registry := registry } := by
  rw [Registry.numbered] at registered
  unfold deploy
  simp only [Registry.nextAddress, paid, derived, registered]

/-- A deployment counts, registers its contract and, if it fails then, retires the address. -/
theorem deploy_fails (idle : m.storage.layers = []) {code : ContractCode} {args : Args}
    {deployer : Address} {value : Int} {gas : Option Int} {f : Fault}
    (h : deploy code args deployer value gas m = .error f m') : m.registry.Steps m'.registry := by
  have numbered : m.registry.Steps (m.registry.numbered deployer) := .single (.numbered deployer)
  have deploys := deploy_cases m code args deployer value gas
  generalize deploy code args deployer value gas m = res at h deploys
  cases deploys with
  | unpaid =>
    cases h
    exact .refl
  | underived | unregistered =>
    cases h
    exact numbered
  | @constructed a c registry _ _ registered =>
    rw [construct_fails (m := { m with registry := registry }) idle h]
    exact (numbered.tail (.register registered)).tail (.retire a)

theorem Commits.steps {top : Layer} {terminations : List Address} {events : List Event}
    (commits : m.Commits top terminations events m') : m.registry.Steps m'.registry := by
  rw [commits.registry]
  exact .foldl_retire _ _

theorem Commits.slots {top : Layer} {terminations : List Address} {events : List Event}
    (commits : m.Commits top terminations events m')
    (h : m.storage.persisted.Within (fun a => m.registry.find? a ≠ none) (fun _ => True))
    (htop : top.Within (fun a => m.registry.find? a ≠ none) (fun _ => True)) :
    m'.storage.persisted.Within (fun a => m'.registry.find? a ≠ none) (fun _ => True) := by
  rw [commits.storage]
  refine ((h.merge htop).erased terminations.eraseDups).mono fun a ha => ?_
  rw [commits.registry, Registry.find?_foldl_retire, if_neg ha.2]
  exact ha.1

/-- The layer of a first frame has slots of live contracts only. -/
theorem live_of_run {r : Request} {meter : GasMeter} {t : Site} {top : Layer}
    (idle : m.storage.layers = []) (direct : r.storageAddress = r.codeAddress)
    (ran : Run (.frame m.environment r) (m.topSite (m.topFrame r meter)) none t)
    (storage : t.world.storage = ⟨m.storage.persisted, [top]⟩) :
    top.Within (fun a => m.registry.find? a ≠ none) (fun _ => True) := by
  have within : t.world.storage.Within (fun a => m.registry.find? a ≠ none) (fun _ => True) :=
    ran.within (m.topSite_alive meter direct) (fun _ => ⟨trivial, trivial⟩)
      (fun a ha => ⟨ha, trivial⟩) (fun _ _ => trivial) (Storage.Within.of_idle idle).snapshot
  rw [storage] at within
  exact within top List.mem_cons_self

end Machine

open Machine

theorem Operation.steps {m : Machine} (idle : m.storage.layers = []) (op : Operation) :
    m.registry.Steps (op.after m).registry := by
  cases op with
  | deploy code args deployer value gas =>
    have ends := deploy_ends idle code args deployer value gas
    show m.registry.Steps (Host.left (Machine.deploy code args deployer value gas m)).registry
    cases hd : Machine.deploy code args deployer value gas m with
    | error f m' => exact deploy_fails idle hd
    | ok a m' =>
      rw [hd] at ends
      cases ends with
      | deployed _ registered _ _ commits =>
        exact ((Relation.ReflTransGen.single (.numbered deployer)).tail
          (.register registered)).trans commits.steps
  | call sender target fn args value gas =>
    have ends := (Operation.call sender target fn args value gas).ends idle
    generalize Operation.succeeds m _ = b at ends
    generalize Operation.after m _ = m' at ends ⊢
    cases ends with
    | failed => exact .refl
    | called _ _ commits => exact commits.steps
  | fund a amount =>
    have ends := (Operation.fund a amount).ends idle
    generalize Operation.succeeds m _ = b at ends
    generalize Operation.after m _ = m' at ends ⊢
    cases ends with
    | failed => exact .refl
    | funded commits => exact commits.steps
  | terminate a beneficiary =>
    have ends := (Operation.terminate a beneficiary).ends idle
    generalize Operation.succeeds m _ = b at ends
    generalize Operation.after m _ = m' at ends ⊢
    cases ends with
    | failed => exact .refl
    | terminated _ _ commits => exact commits.steps
  | setBlock b => exact .refl

theorem Operation.slots_after {m : Machine} (idle : m.storage.layers = [])
    (h : m.storage.persisted.Within (fun a => m.registry.find? a ≠ none) (fun _ => True))
    (op : Operation) : (op.after m).storage.persisted.Within
      (fun a => (op.after m).registry.find? a ≠ none) (fun _ => True) := by
  have ends := op.ends idle
  generalize op.succeeds m = b at ends
  generalize op.after m = m' at ends ⊢
  cases ends with
  | failed | blockSet => exact h
  | @undeployed _ _ _ _ _ registry _ spent =>
    refine h.mono fun a live => ?_
    show registry.contracts.get? a ≠ none
    rw [spent.contracts]
    exact live
  | @deployed _ _ _ _ _ a c registry _ _ _ _ _ _ _ registered ran storage commits =>
    refine commits.slots (h.mono fun b live => ?_)
      (live_of_run (m := { m with registry := registry }) idle rfl ran storage)
    show registry.find? b ≠ none
    rw [Registry.find?_register registered]
    split
    · exact Option.some_ne_none c
    · exact live
  | called ran storage commits => exact commits.slots h (live_of_run idle rfl ran storage)
  | funded commits => exact commits.slots h (Layer.Within.empty.setBalance trivial _)
  | terminated _ swept commits =>
    refine commits.slots h ?_
    rcases swept with rfl | ⟨-, n, rfl⟩
    · exact .empty
    · exact (Layer.Within.empty.setBalance trivial _).setBalance trivial _

namespace Machine

variable {m : Machine} {a : Address}

theorem steps_perform (reachable : m.Reachable) (ops : List Operation) :
    m.registry.Steps (m.perform ops).registry :=
  reachable.perform_keeps (P := fun n => m.registry.Steps n.registry) .refl
    fun op _ _ reachable h => h.trans (op.steps reachable.idle)

theorem Reachable.tenanted (h : m.Reachable) : m.Tenanted := by
  obtain ⟨settings, hash, ops, rfl⟩ := h
  exact Reachable.perform_keeps (P := Tenanted) ⟨settings, hash, [], rfl⟩
    ⟨fun _ live => absurd rfl live, .empty⟩
    fun op _ _ reachable h =>
      ⟨(op.steps reachable.idle).apart h.apart, op.slots_after reachable.idle h.slots⟩

/-! ## Retired addresses -/

theorem firstFrame_dead {r : Request} (dead : m.registry.find? r.codeAddress = none) :
    ∃ t, m.firstFrame r = .error (.raised (.noContract r.codeAddress) false) t := by
  obtain ⟨f, -, hmove⟩ := Exec.move_eq (s := m.topSite (m.topFrame r ⟨r.gas, r.gas⟩)) .binding
    List.mem_cons_self
  have hlookup : m.environment.registry.lookup r.codeAddress = .error (.noContract r.codeAddress) := by
    unfold Registry.lookup
    rw [show m.environment.registry.find? r.codeAddress = none from dead]
  refine ⟨{ m.topSite (m.topFrame r ⟨r.gas, r.gas⟩) with frame := f }, ?_⟩
  unfold firstFrame Exec.attempt
  rw [Exec.bind_ok hmove, hlookup]
  rfl

theorem CallEnds.of_reverted {r : Request} {res : EStateM.Result Fault Machine CallResult}
    (h : CallEnds m r res) {failure : Failure} {used : Int} {m' : Machine}
    (hres : res = .ok (.reverted failure used) m') : ∃ trail, m' = { m with trail := trail } := by
  cases h with
  | failed | committed => cases hres
  | reverted _ _ _ trail => exact ⟨trail, (EStateM.Result.ok.inj hres).2.symm⟩

/-- A host that calls an address without a contract is told so, and nothing else happens. -/
theorem call_dead (idle : m.storage.layers = []) (dead : m.registry.find? a = none)
    (sender : Address) (fn : String) (args : Args) {value : Int} (hvalue : 0 ≤ value)
    {gas : Option Int} (hgas : 0 ≤ gas.getD m.settings.defaultGas) :
    ∃ used trail, call sender a fn args value gas m =
      .ok (.reverted (Cause.noContract a).failure used) { m with trail := trail } := by
  have answers := answers_call idle sender a fn args hvalue hgas
  have ends := call_ends idle sender a fn args value gas
  obtain ⟨t, hframe⟩ := firstFrame_dead (m := m)
    (r := topRequest sender a (.named fn) args value (gas.getD m.settings.defaultGas)) dead
  generalize call sender a fn args value gas m = res at answers ends ⊢
  cases answers with
  | committed ran | overdrawn ran | unwritten ran =>
    rw [hframe] at ran
    cases ran
  | reverted ran =>
    rw [hframe] at ran
    cases ran
    obtain ⟨trail, rfl⟩ := ends.of_reverted rfl
    exact ⟨_, trail, rfl⟩

/-- A retired address has no contract and no slots, and no code reaches it. -/
structure OutOfUse (m : Machine) (a : Address) : Prop where
  retired : a ∈ m.registry.retired
  dead : m.registry.find? a = none
  slotless : m.storage.persisted.slots.get? a = none
  refused : ∀ sender fn args value gas, 0 ≤ value → 0 ≤ gas.getD m.settings.defaultGas →
    ∃ used trail, call sender a fn args value gas m =
      .ok (.reverted (Cause.noContract a).failure used) { m with trail := trail }
  /-- Whatever a transaction runs, it runs for another address and calls other ones. -/
  unreached : ∀ r meter K sc e u, r.storageAddress = r.codeAddress →
    Moment (.frame m.environment r) (m.topSite (m.topFrame r meter)) K (.body sc) e u →
      u.frame.ctx.self ≠ a ∧ ∀ o : Opening sc u, o.target ≠ a

theorem Tenanted.outOfUse (h : m.Tenanted) (idle : m.storage.layers = [])
    (ha : a ∈ m.registry.retired) : m.OutOfUse a := by
  have dead : m.registry.find? a = none := by
    cases hf : m.registry.find? a with
    | none => rfl
    | some c => exact absurd ha (h.apart a (by rw [hf]; exact Option.some_ne_none c))
  refine ⟨ha, dead, h.slots.slots_eq_none fun live => live dead,
    fun sender fn args value gas hvalue hgas => call_dead idle dead sender fn args hvalue hgas, ?_⟩
  intro r meter K sc e u direct hu
  have hs : (Place.frame m.environment r).Standing (m.topSite (m.topFrame r meter)) :=
    ⟨m.topSite_alive meter direct, congrArg (fun l => List.length l + 1) idle, rfl, rfl⟩
  obtain ⟨standing, henv⟩ := hu.standing (fun _ _ h => nomatch h) hs
  have henv : sc.env = m.environment := henv
  constructor
  · intro hself
    have live : sc.env.registry.find? u.frame.ctx.self ≠ none := standing.alive
    rw [henv, hself] at live
    exact live dead
  · intro o htarget
    have found := o.found
    rw [henv, htarget] at found
    exact nomatch dead.symm.trans found

end Machine

/-! ## Addresses that deployments give -/

/-- A deployment that gets as far as to run the constructors at the address. -/
inductive Operation.Builds (m : Machine) : Operation → Address → Prop
  | mk {code args deployer value gas a c registry}
    (paid : spendable "deploy" value (gas.getD m.settings.deployGas) = .ok ())
    (derived : deriveAddress m.hash deployer (m.registry.nonce deployer) = .ok a)
    (registered : (m.registry.numbered deployer).register a code = .ok (c, registry)) :
    Builds m (.deploy code args deployer value gas) a

/-- The address that a deployment gives to its host. -/
def Operation.gives (m : Machine) : Operation → Option Address
  | .deploy code args deployer value gas =>
    match Machine.deploy code args deployer value gas m with
    | .ok a _ => some a
    | .error _ _ => none
  | _ => none

/-- The addresses that the deployments among some operations give. -/
def Machine.given (m : Machine) : List Operation → List Address
  | [] => []
  | op :: rest => (op.gives m).toList ++ (op.after m).given rest

namespace Operation

variable {m : Machine} {op : Operation} {a : Address}

theorem gives_eq_some (h : op.gives m = some a) : op.Builds m a := by
  unfold gives at h
  split at h
  · split at h
    · next code args deployer value gas b m' hd =>
      cases h
      obtain ⟨hpaid, c, registry, -, -, -, -, -, derived, registered, -, -⟩ := deploy_committed hd
      exact ⟨spendable_eq_ok_iff.2 hpaid, derived, registered⟩
    · cases h
  · cases h

theorem Builds.unused (h : op.Builds m a) : ¬ m.registry.Used a := by
  obtain ⟨-, -, registered⟩ := h
  -- Counting a deployment uses no address.
  exact Registry.unused_of_register (r := m.registry.numbered _) registered

/-- The address of a deployment is used from then on, and retired if the deployment fails. -/
theorem Builds.used (h : op.Builds m a) (idle : m.storage.layers = []) :
    (op.after m).registry.Used a ∧ (op.gives m ≠ some a → a ∈ (op.after m).registry.retired) := by
  obtain @⟨code, args, deployer, value, gas, _, c, registry, paid, derived, registered⟩ := h
  have heq := deploy_eq_construct paid derived registered args
  unfold Operation.after Operation.gives
  simp only [heq]
  have ends := construct_ends idle derived registered args value (gas.getD m.settings.deployGas)
  cases hc : construct code c a deployer args value (gas.getD m.settings.deployGas)
      { m with registry := registry } with
  | error f m' =>
    have hregistry : m'.registry = registry.retire a :=
      construct_fails (m := { m with registry := registry }) idle hc
    have retired : a ∈ m'.registry.retired := by
      rw [hregistry]
      exact (Registry.mem_retired_retire registry a a).2 (.inr rfl)
    exact ⟨.inr retired, fun _ => retired⟩
  | ok b m' =>
    have hb : b = a := (construct_committed hc).1
    refine ⟨?_, fun h => absurd (congrArg some hb) h⟩
    rw [hc] at ends
    cases ends with
    | deployed derived' registered' _ _ commits =>
      cases derived.symm.trans derived'
      cases registered.symm.trans registered'
      refine commits.steps.used (.inl ?_)
      show registry.find? a ≠ none
      rw [Registry.find?_register registered, if_pos rfl]
      exact Option.some_ne_none c

end Operation

namespace Machine

variable {m : Machine}

theorem given_unused (reachable : m.Reachable) {ops : List Operation} {a : Address}
    (ha : a ∈ m.given ops) : ¬ m.registry.Used a := by
  induction ops generalizing m with
  | nil => cases ha
  | cons op rest ih =>
    rcases List.mem_append.1 ha with hop | hrest
    · exact (Operation.gives_eq_some (Option.mem_toList.1 hop)).unused
    · exact fun used => ih (reachable.after op) hrest ((op.steps reachable.idle).used used)

/-- No address is given twice: the first time it is given, it becomes used. -/
theorem nodup_given (reachable : m.Reachable) (ops : List Operation) : (m.given ops).Nodup := by
  induction ops generalizing m with
  | nil => exact List.nodup_nil
  | cons op rest ih =>
    have hrest := ih (reachable.after op)
    show ((op.gives m).toList ++ (op.after m).given rest).Nodup
    cases hop : op.gives m with
    | none => exact hrest
    | some a =>
      have used := ((Operation.gives_eq_some hop).used reachable.idle).1
      exact List.nodup_cons.2 ⟨fun ha => given_unused (reachable.after op) ha used, hrest⟩

/-- What becomes of addresses.  No address is live and retired, and only live contracts have
slots.  A retired address is out of use for good, and so is one that was live and is not any
more.  Deployments give different addresses; the one that a deployment builds at has had no
contract and has no slots, and it is out of use if the deployment fails. -/
theorem addresses_used_once (settings : Settings) (hash : Bytes → Bytes) (ops : List Operation)
    (hm : m = (start settings hash).perform ops) :
    (∀ a, m.registry.find? a ≠ none → a ∉ m.registry.retired) ∧
    (∀ a, m.storage.persisted.slots.get? a ≠ none → m.registry.find? a ≠ none) ∧
    (∀ a ∈ m.registry.retired, ∀ later, (m.perform later).OutOfUse a) ∧
    (∀ a, m.registry.find? a ≠ none → ∀ later, (m.perform later).registry.find? a = none →
      (m.perform later).OutOfUse a) ∧
    ((start settings hash).given ops).Nodup ∧
    ∀ (op : Operation) (a : Address), (op.gives m = some a → op.Builds m a) ∧
      (op.Builds m a → ¬ m.registry.Used a ∧ m.storage.persisted.slots.get? a = none ∧
        (op.after m).registry.Used a ∧ (op.gives m ≠ some a → (op.after m).OutOfUse a)) := by
  have fresh : (start settings hash).Reachable := ⟨settings, hash, [], rfl⟩
  have reachable : m.Reachable := ⟨settings, hash, ops, hm⟩
  have tenanted := reachable.tenanted
  have outOfUse {n : Machine} (hn : n.Reachable) {a : Address} (ha : a ∈ n.registry.retired) :
      n.OutOfUse a := hn.tenanted.outOfUse hn.idle ha
  have later (later : List Operation) : (m.perform later).Reachable :=
    reachable.perform_keeps reachable fun op _ _ h _ => h.after op
  refine ⟨tenanted.apart, fun a hslots hdead => ?_, fun a ha ops => ?_, fun a live ops dead => ?_,
    nodup_given fresh ops, fun op a => ⟨Operation.gives_eq_some, fun builds => ?_⟩⟩
  · exact hslots (tenanted.slots.slots_eq_none fun live => live hdead)
  · exact outOfUse (later ops) ((steps_perform reachable ops).retired ha)
  · have used := (steps_perform reachable ops).used (.inl live)
    exact outOfUse (later ops) (used.resolve_left fun live => live dead)
  · obtain ⟨used, failed⟩ := builds.used reachable.idle
    refine ⟨builds.unused, ?_, used, fun h => outOfUse (reachable.after op) (failed h)⟩
    exact tenanted.slots.slots_eq_none fun live => builds.unused (.inl live)

/-! ## A contract that is terminated -/

def closed : List Operation :=
  [Mask.deploys "Face" Mask.mark, Mask.deploys "Wearer" Mask.wear, .terminate Mask.face ""]

open Mask in
theorem addresses_used_once_mask :
    face ∈ ((start .standard counted).perform closed).registry.retired ∧
      (((start .standard counted).perform closed).perform [deploys "Face" mark]).OutOfUse face ∧
      (start .standard counted).given closed = [face, wearer] ∧
      ((start .standard counted).given closed).Nodup := by
  obtain ⟨-, -, retired, -, nodup, -⟩ := addresses_used_once .standard counted closed rfl
  have hface : face ∈ ((start .standard counted).perform closed).registry.retired := by
    decide +kernel
  exact ⟨hface, retired face hface [deploys "Face" mark], by decide +kernel, nodup⟩

end Machine

end ContractVM
