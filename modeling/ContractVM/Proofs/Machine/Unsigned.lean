/-
Machines on which nothing is negative.

A host that deploys code without negative constants, and sets no block with a negative
time or number, never has a machine that holds a negative integer (`unsigned_perform`).
Code keeps it that way (`Exec.attempt_keeps`), and what the host does by itself writes
no slots.  Of the contracts of a machine all that is needed here holds by where they come
from: each was deployed, at a derived address (`Registry.Every`).
-/
import ContractVM.Proofs.Exec.PoliteCode
import ContractVM.Proofs.Machine.Replay
import ContractVM.Proofs.Machine.Supply

namespace ContractVM

open Machine

/-! ## Where contracts come from -/

namespace Registry

variable {P : Address → Contract → Prop} {r r' : Registry}

/-- All contracts have `P`. -/
def Every (P : Address → Contract → Prop) (r : Registry) : Prop :=
  ∀ a c, r.find? a = some c → P a c

theorem flatten_of_register {a : Address} {code : ContractCode} {c : Contract}
    (h : r.register a code = .ok (c, r')) : Contract.flatten a code = .ok c :=
  (register_eq_ok h).2.2.1

theorem Every.register (h : r.Every P) {a : Address} {code : ContractCode} {c : Contract}
    (registered : r.register a code = .ok (c, r')) (hc : P a c) : r'.Every P := by
  intro b d hd
  rw [find?_register registered] at hd
  split at hd
  · next hb =>
    cases hd
    rw [hb]
    exact hc
  · exact h b d hd

theorem Every.of_contracts (h : r.Every P) (same : r'.contracts = r.contracts) : r'.Every P := by
  intro a c hc
  refine h a c ?_
  unfold find? at hc ⊢
  rw [← same]
  exact hc

end Registry

theorem Machine.Commits.every {P : Address → Contract → Prop} {m m' : Machine} {top : Layer}
    {terminations : List Address} {events : List Event}
    (commits : m.Commits top terminations events m') (h : m.registry.Every P) :
    m'.registry.Every P := by
  intro a c hc
  rw [commits.registry, Registry.find?_foldl_retire] at hc
  split at hc
  · cases hc
  · exact h a c hc

namespace Operation

/-- The code that an operation deploys. -/
def code? : Operation → Option ContractCode
  | .deploy code _ _ _ _ => some code
  | _ => none

theorem every_after {P : Address → Contract → Prop} {m : Machine} (idle : m.storage.layers = [])
    (h : m.registry.Every P) (op : Operation)
    (hop : ∀ code a c, op.code? = some code → Address.isValid a = true →
      Contract.flatten a code = .ok c → P a c) : (op.after m).registry.Every P := by
  have ends := op.ends idle
  generalize op.succeeds m = b at ends
  generalize op.after m = m' at ends ⊢
  cases ends with
  | failed | blockSet => exact h
  | undeployed _ spent => exact h.of_contracts spent.contracts
  | deployed derived registered _ _ commits =>
    have hc := hop _ _ _ rfl (isValid_of_deriveAddress derived)
      (Registry.flatten_of_register registered)
    exact commits.every (Registry.Every.register (r := m.registry.numbered _) h registered hc)
  | called _ _ commits | funded commits | terminated _ _ commits => exact commits.every h

end Operation

/-! ## The block -/

namespace Machine

variable {m m' : Machine} {r : Request}

theorem block_settleTop (m : Machine) (t : Site) (f : Fault) :
    (Host.left (m.settleTop t f)).block = m.block := by
  unfold settleTop
  split <;> rfl

theorem block_commitTop (m : Machine) (t : Site) (v : Option Value) :
    (Host.left (m.commitTop t v)).block = m.block := by
  unfold commitTop
  split
  · exact block_settleTop m t _
  · split
    · exact block_settleTop m t _
    · split
      · rfl
      · next hcommitted =>
        obtain ⟨registry, storage, journal, rfl⟩ := commitStaged_eq_ok hcommitted
        simp only
        split <;> rfl

theorem block_runTop (m : Machine) (r : Request) : (Host.left (runTop r m)).block = m.block := by
  unfold runTop
  split
  · rfl
  · split
    · exact block_commitTop m _ _
    · exact block_settleTop m _ _

theorem block_construct (m : Machine) (code : ContractCode) (c : Contract) (a deployer : Address)
    (args : Args) (value gas : Int) :
    (Host.left (construct code c a deployer args value gas m)).block = m.block := by
  have hblock := block_runTop m (topRequest deployer a .construct args value gas)
  unfold construct
  split
  all_goals
    next hrun =>
    rw [hrun] at hblock
    exact hblock

theorem block_commitHost (m : Machine) (change : Storage → Except Misuse Storage)
    (terminations : List Address) :
    (Host.left (commitHost change terminations m)).block = m.block := by
  obtain ⟨registry, storage, journal, hleft⟩ := left_commitHost m change terminations
  rw [hleft]

end Machine

/-- Only the host sets the block. -/
theorem Operation.block_after (m : Machine) (op : Operation) :
    (op.after m).block = match op with
      | .setBlock b => b
      | _ => m.block := by
  cases op with
  | setBlock b => rfl
  | fund a n =>
    show (Host.left (Machine.fund a n m)).block = m.block
    unfold Machine.fund
    split
    · rfl
    · exact block_commitHost m _ _
  | terminate a beneficiary =>
    show (Host.left (Machine.terminate a beneficiary m)).block = m.block
    unfold Machine.terminate
    split
    · rfl
    · have hblock := block_commitHost m
        (fun s => if beneficiary = "" then .ok s else sweep a beneficiary s) [a]
      split
      all_goals
        next hcommit =>
        rw [hcommit] at hblock
        exact hblock
  | call sender target fn args value gas =>
    have hblock := block_runTop m (topRequest sender target (.named fn) args value
      (gas.getD m.settings.defaultGas))
    show (Host.left (Machine.call sender target fn args value gas m)).block = m.block
    unfold Machine.call
    simp only
    split
    · rfl
    · split
      all_goals
        next hrun =>
        rw [hrun] at hblock
        exact hblock
  | deploy code args deployer value gas =>
    have deploys := deploy_cases m code args deployer value gas
    show (Host.left (Machine.deploy code args deployer value gas m)).block = m.block
    generalize Machine.deploy code args deployer value gas m = res at deploys ⊢
    cases deploys with
    | unpaid | underived | unregistered => rfl
    | @constructed _ _ registry =>
      exact block_construct { m with registry := registry } _ _ _ _ _ _ _

/-! ## Nothing is negative -/

theorem Storage.Unsigned.persisted {s : Storage} (h : s.Unsigned) : s.persisted.Unsigned :=
  h.slots _ (List.mem_append_right _ (List.mem_singleton.2 rfl))

namespace Machine

variable {m m' : Machine} {r : Request}

structure Unsigned (m : Machine) : Prop where
  storage : m.storage.Unsigned
  environment : m.environment.Unsigned

theorem Unsigned.topSite (h : m.Unsigned) {meter : GasMeter} (solvent : meter.Solvent)
    (hvalue : 0 ≤ r.value) : (m.topSite (m.topFrame r meter)).Unsigned where
  storage := h.storage.snapshot
  locals := .empty
  frame := ⟨⟨hvalue, h.environment.timestamp, h.environment.number⟩, solvent, fun _ he => nomatch he⟩

/-- What a layer holds that is merged. -/
theorem Commits.slots_unsigned {top : Layer} {terminations : List Address} {events : List Event}
    (commits : m.Commits top terminations events m') (h : m.storage.persisted.Unsigned)
    (htop : top.Unsigned) : m'.storage.persisted.Unsigned := by
  rw [commits.storage]
  exact (h.merge htop).foldl_erase _

/-- What a transaction persists that commits. -/
theorem runTop_unsigned (idle : m.storage.layers = []) (h : m.Unsigned) {v : Option Value} {left : Int}
    {logged : List LoggedEvent} (hr : runTop r m = .ok (.committed v left, logged) m')
    (direct : r.storageAddress = r.codeAddress) (hvalue : 0 ≤ r.value) :
    m'.storage.persisted.Unsigned := by
  obtain ⟨meter, t, top, budget, hattempt, -, storage, commits⟩ := runTop_committed idle direct hr
  have solvent := (GasMeter.ofBudget?_eq_some budget).2
  have kept := Exec.attempt_keeps (runBody_polite (nesting r.gas)) h.environment r _
    (h.topSite solvent hvalue)
  rw [hattempt] at kept
  have htop := kept.1.storage.slots
  rw [storage] at htop
  exact commits.slots_unsigned h.storage.persisted (htop top List.mem_cons_self)

end Machine

namespace Operation

/-- The host deploys no code that binds, writes or pays a negative constant, and sets no
negative block. -/
def unsigned : Operation → Bool
  | .deploy code _ _ _ _ => code.unsigned
  | .setBlock b => decide (0 ≤ b.timestamp) && decide (0 ≤ b.number)
  | _ => true

variable {m : Machine}

theorem persisted_unsigned (reachable : m.Reachable) (h : m.Unsigned) {op : Operation}
    (hop : op.unsigned = true) : (op.after m).storage.persisted.Unsigned := by
  have idle := reachable.idle
  cases hs : op.succeeds m with
  | false =>
    rw [((op.atomic reachable).1 hs).storage]
    exact h.storage.persisted
  | true =>
    have ends := op.ends idle
    rw [hs] at ends
    cases op with
    | setBlock b => exact h.storage.persisted
    | call sender target fn args value gas =>
      obtain ⟨v, used, logged, hcall⟩ := call_of_succeeds hs
      obtain ⟨⟨hvalue, -⟩, left, m', step, hr, hm'⟩ := call_committed hcall
      have hpersisted := runTop_unsigned idle h hr rfl hvalue
      rw [hm']
      exact hpersisted
    | deploy code args deployer value gas =>
      obtain ⟨a, hdeploy⟩ := deploy_of_succeeds hs
      obtain ⟨⟨hvalue, -⟩, c, registry, v, left, logged, m', step, -, registered, hr, hm'⟩ :=
        deploy_committed hdeploy
      have contracts : registry.Every fun _ c => c.unsigned = true :=
        Registry.Every.register (r := m.registry.numbered deployer) h.environment.contracts registered
          (Contract.unsigned_flatten (Registry.flatten_of_register registered) hop)
      have ready : { m with registry := registry }.Unsigned :=
        ⟨h.storage, contracts, h.environment.timestamp, h.environment.number⟩
      have hpersisted := runTop_unsigned (m := { m with registry := registry }) idle ready hr rfl
        hvalue
      rw [hm']
      exact hpersisted
    | fund a n =>
      generalize (Operation.fund a n).after m = m' at ends ⊢
      cases ends with
      | funded commits => exact commits.slots_unsigned h.storage.persisted (Layer.Unsigned.empty.setBalance _ _)
    | terminate a beneficiary =>
      generalize (Operation.terminate a beneficiary).after m = m' at ends ⊢
      cases ends with
      | terminated _ swept commits =>
        refine commits.slots_unsigned h.storage.persisted ?_
        rcases swept with rfl | ⟨-, n, rfl⟩
        · exact .empty
        · exact (Layer.Unsigned.empty.setBalance _ _).setBalance _ _

theorem unsigned_after (reachable : m.Reachable) (h : m.Unsigned) (op : Operation)
    (hop : op.unsigned = true) : (op.after m).Unsigned := by
  have idle := op.idle_after reachable.idle
  have debtless := (after_accounts reachable (.of_storage h.storage.debtless) op).1
  have persisted := persisted_unsigned reachable h hop
  have contracts : (op.after m).registry.Every fun _ c => c.unsigned = true := by
    refine op.every_after reachable.idle h.environment.contracts fun code a c hcode _ hflatten => ?_
    cases op with
    | deploy own args deployer value gas =>
      cases hcode
      exact Contract.unsigned_flatten hflatten hop
    | _ => cases hcode
  have block : 0 ≤ (op.after m).block.timestamp ∧ 0 ≤ (op.after m).block.number := by
    rw [op.block_after]
    cases op with
    | setBlock b =>
      obtain ⟨htime, hnumber⟩ := Bool.and_eq_true_iff.1 hop
      exact ⟨of_decide_eq_true htime, of_decide_eq_true hnumber⟩
    | _ => exact ⟨h.environment.timestamp, h.environment.number⟩
  refine ⟨⟨debtless, fun l hl => ?_⟩, contracts, block.1, block.2⟩
  rw [idle] at hl
  rw [List.mem_singleton.1 hl]
  exact persisted

end Operation

namespace Machine

variable {m : Machine}

theorem unsigned_start (settings : Settings) (hash : Bytes → Bytes) : (start settings hash).Unsigned where
  storage := by
    refine ⟨.empty, fun l hl => ?_⟩
    rw [List.mem_singleton.1 hl]
    exact .empty
  environment := ⟨fun _ _ h => (nomatch h), Int.le_refl 0, Int.le_refl 0⟩

theorem unsigned_perform (reachable : m.Reachable) (h : m.Unsigned) {ops : List Operation}
    (hops : ∀ op ∈ ops, op.unsigned = true) : (m.perform ops).Unsigned :=
  reachable.perform_keeps h fun op hop _ reachable h => op.unsigned_after reachable h (hops op hop)

/-- The contracts of a machine have well-formed addresses. -/
theorem addressed_perform (reachable : m.Reachable)
    (h : m.registry.Every fun a _ => Address.isValid a = true) (ops : List Operation) :
    (m.perform ops).registry.Every fun a _ => Address.isValid a = true :=
  reachable.perform_keeps (P := fun m => m.registry.Every fun a _ => Address.isValid a = true) h
    fun op _ _ reachable h => op.every_after reachable.idle h fun _ _ _ _ valid _ => valid

end Machine

end ContractVM
