/-
The value in a machine.

Only the host makes value, and value is lost only with a contract that is retired: code
moves it (`Storage.conserves`), a transaction that fails gives back what it moved, and
the host sweeps all that a contract owns to the beneficiary it names.  So the supply is
what was there before, what the host has made since, and less by what retired contracts
took with them.  There are no debts, not even in the middle of a transaction, so that the
supply never exceeds what the host has made.
-/
import Mathlib.Algebra.Order.BigOperators.Group.List
import ContractVM.Proofs.Exec.Conserving
import ContractVM.Proofs.Machine.Lasting

namespace ContractVM

/-! ## Erasing accounts -/

theorem Layer.balances_foldl_erase (as : List Address) (l : Layer) :
    (as.foldl Layer.erase l).balances = as.foldl Table.erase l.balances := by
  induction as generalizing l with
  | nil => rfl
  | cons a rest ih => exact ih (l.erase a)

theorem Table.mem_foldl_erase {α : Type} {as : List String} {t : Table α} {e : String × α}
    (h : e ∈ (as.foldl Table.erase t).entries) : e ∈ t.entries := by
  induction as generalizing t with
  | nil => exact h
  | cons a rest ih => exact (List.mem_filter.1 (ih h)).1

namespace Machine

variable {m m' : Machine} {r : Request}

/-- All the value there is. -/
def supply (m : Machine) : Int := m.storage.persisted.balances.total

theorem total_of_idle (idle : m.storage.layers = []) : m.storage.total = m.supply := by
  unfold Storage.total Storage.balances
  rw [idle]
  rfl

theorem holding_of_idle (idle : m.storage.layers = []) (debtless : m.storage.Debtless) :
    m.storage.Holding m.supply := ⟨total_of_idle idle, debtless⟩

/-- A sweep moves all that `a` has, which is lost if it goes to `a` itself. -/
theorem sweep_eq_ok {a beneficiary : Address} {s t : Storage} (h : sweep a beneficiary s = .ok t) :
    ∃ paid, s.setBalance beneficiary (s.balanceOf beneficiary + s.balanceOf a) = .ok paid ∧
      paid.setBalance a 0 = .ok t := by
  unfold sweep at h
  cases hpaid : s.setBalance beneficiary (s.balanceOf beneficiary + s.balanceOf a) with
  | error e =>
    rw [hpaid] at h
    cases h
  | ok paid =>
    rw [hpaid] at h
    exact ⟨paid, rfl, h⟩

theorem sweep_total {a beneficiary : Address} {s t : Storage} (h : sweep a beneficiary s = .ok t) :
    t.balanceOf a = 0 ∧ t.total = if beneficiary = a then s.total - s.balanceOf a else s.total := by
  obtain ⟨paid, hpaid, ht⟩ := sweep_eq_ok h
  have hleft := Storage.balanceOf_setBalance (b := a) ht
  have hmid := Storage.balanceOf_setBalance (b := a) hpaid
  have htotal := Storage.total_setBalance hpaid
  have htotal' := Storage.total_setBalance ht
  rw [if_pos rfl] at hleft
  refine ⟨hleft, ?_⟩
  by_cases ha : beneficiary = a
  · subst ha
    rw [if_pos rfl] at hmid ⊢
    omega
  · rw [if_neg (Ne.symm ha)] at hmid
    rw [if_neg ha]
    omega

/-! ## Commits -/

section Commits

variable {s : Storage} {top : Layer} {terminations : List Address} {events : List Event}

/-- A commit loses what the accounts that it retires have in the layer it merges. -/
theorem Commits.supply (commits : m.Commits top terminations events m')
    (layer : s = ⟨m.storage.persisted, [top]⟩) :
    m'.supply = s.total - (terminations.eraseDups.map s.balanceOf).sum := by
  subst layer
  have hsum : terminations.eraseDups.map (Storage.balanceOf ⟨m.storage.persisted, [top]⟩) =
      terminations.eraseDups.map fun a => ((m.storage.persisted.merge top).balances.get? a).getD 0 :=
    List.map_congr_left fun a _ => Storage.balanceOf_eq _ a
  unfold Machine.supply
  rw [commits.storage, hsum, Layer.balances_foldl_erase,
    Table.total_foldl_erase _ (Text.nodup_eraseDups _)]
  rfl

theorem Commits.debtless (commits : m.Commits top terminations events m')
    (layer : s = ⟨m.storage.persisted, [top]⟩) (debtless : s.Debtless) : m'.storage.Debtless := by
  subst layer
  have hmerged : ∀ e ∈ (m.storage.persisted.merge top).balances.entries, 0 ≤ e.2 := debtless.balances
  rw [commits.storage]
  refine ⟨fun e he => ?_, fun _ hl => nomatch hl⟩
  rw [Layer.balances_foldl_erase] at he
  exact hmerged e (Table.mem_foldl_erase he)

end Commits

/-! ## Transactions -/

/-- The transaction `r` ran to `t`, where its one layer is about to be merged.  The supply
of `m` is reduced by what this layer shows of the contracts that are retired. -/
structure Merged (m : Machine) (r : Request) (t : Site) (m' : Machine) : Prop where
  ran : ∃ meter v, GasMeter.ofBudget? r.gas = some meter ∧
    Exec.attempt (runBody (nesting r.gas)) m.environment r (m.topSite (m.topFrame r meter)) = .ok v t
  depth : t.world.storage.depth = 1
  retired : ∀ a, a ∈ t.frame.terminations ↔
    m.registry.find? a ≠ none ∧ m'.registry.find? a = none
  supply : m'.supply = m.supply - (t.frame.terminations.eraseDups.map t.world.storage.balanceOf).sum

theorem runTop_merged (idle : m.storage.layers = []) (debtless : m.storage.Debtless)
    (direct : r.storageAddress = r.codeAddress) {v : Option Value} {left : Int}
    {logged : List LoggedEvent} (h : runTop r m = .ok (.committed v left, logged) m') :
    ∃ t, m.Merged r t m' ∧ t.world.storage.Debtless ∧ m'.storage.Debtless := by
  obtain ⟨meter, t, top, budget, hattempt, ran, storage, commits⟩ := runTop_committed idle direct h
  have holding : t.world.storage.Holding m.supply :=
    ran.invariant (Storage.conserves _) ((Storage.conserves _).snapshot (holding_of_idle idle debtless))
  have live := (ran.grounded (m.topSite_alive meter direct) .start).terminations
  refine ⟨t, ⟨⟨meter, v, budget, hattempt⟩, by rw [storage]; rfl, fun a => ?_, ?_⟩, holding.2,
    commits.debtless storage holding.2⟩
  · rw [commits.registry, Registry.find?_foldl_retire]
    by_cases ha : a ∈ t.frame.terminations
    · rw [if_pos (List.mem_eraseDups.2 ha)]
      exact ⟨fun _ => ⟨live a ha, rfl⟩, fun _ => ha⟩
    · rw [if_neg (mt List.mem_eraseDups.1 ha)]
      exact ⟨fun h => absurd h ha, fun h => absurd h.2 h.1⟩
  · rw [← holding.1]
    exact commits.supply storage

theorem call_merged (idle : m.storage.layers = []) (debtless : m.storage.Debtless)
    {sender target : Address} {fn : String} {args : Args} {value used : Int} {gas : Option Int}
    {v : Option Value} {logged : List LoggedEvent}
    (h : call sender target fn args value gas m = .ok (.committed v used logged) m') :
    ∃ t, m.Merged (topRequest sender target (.named fn) args value
      (gas.getD m.settings.defaultGas)) t m' ∧ t.world.storage.Debtless ∧ m'.storage.Debtless := by
  obtain ⟨-, left, m'', step, hr, rfl⟩ := call_committed h
  obtain ⟨t, merged, debtless⟩ := runTop_merged idle debtless rfl hr
  exact ⟨t, ⟨merged.ran, merged.depth, merged.retired, merged.supply⟩, debtless⟩

theorem deploy_merged (idle : m.storage.layers = []) (debtless : m.storage.Debtless)
    {code : ContractCode} {args : Args} {deployer a : Address} {value : Int} {gas : Option Int}
    (h : deploy code args deployer value gas m = .ok a m') :
    ∃ c registry t, (m.registry.numbered deployer).register a code = .ok (c, registry) ∧
      { m with registry := registry }.Merged (topRequest deployer a .construct args value
        (gas.getD m.settings.deployGas)) t m' ∧
      t.world.storage.Debtless ∧ m'.storage.Debtless := by
  obtain ⟨-, c, registry, v, left, logged, m'', step, -, registered, hr, rfl⟩ := deploy_committed h
  obtain ⟨t, merged, debtless⟩ := runTop_merged (m := { m with registry := registry }) idle debtless
    rfl hr
  exact ⟨c, registry, t, registered, ⟨merged.ran, merged.depth, merged.retired, merged.supply⟩,
    debtless⟩

/-! ## Operations -/

/-- What a host makes of the supply of `m`. -/
structure Conserving (m : Machine) : Prop where
  failed : ∀ op : Operation, op.succeeds m = false → (op.after m).supply = m.supply
  funded : ∀ a n, (Operation.fund a n).succeeds m = true →
    ((Operation.fund a n).after m).supply = m.supply + n
  called : ∀ sender target fn args value gas v used logged m',
    call sender target fn args value gas m = .ok (.committed v used logged) m' →
      ∃ t, m.Merged (topRequest sender target (.named fn) args value
        (gas.getD m.settings.defaultGas)) t m'
  deployed : ∀ code args deployer value gas a m',
    deploy code args deployer value gas m = .ok a m' →
      ∃ c registry t, (m.registry.numbered deployer).register a code = .ok (c, registry) ∧
        { m with registry := registry }.Merged (topRequest deployer a .construct args value
          (gas.getD m.settings.deployGas)) t m'
  terminated : ∀ a beneficiary, (Operation.terminate a beneficiary).succeeds m = true →
    ((Operation.terminate a beneficiary).after m).supply =
      if beneficiary ≠ "" ∧ beneficiary ≠ a then m.supply else m.supply - m.balanceOf a
  blockSet : ∀ b, ((Operation.setBlock b).after m).supply = m.supply

/-- There are no debts in `m`, nor in any layer that is ever opened on it. -/
structure Debtless (m : Machine) : Prop where
  persisted : m.storage.Debtless
  running : ∀ (env : Environment) (r : Request) (meter : GasMeter) K q e u,
    Moment (.frame env r) (m.topSite (m.topFrame r meter)) K q e u →
      (∀ env r, q ≠ .frame env r) → u.world.storage.Debtless
  funding : ∀ a n s, 0 ≤ n →
    m.storage.snapshot.setBalance a (m.balanceOf a + n) = .ok s → s.Debtless
  sweeping : ∀ a beneficiary s, sweep a beneficiary m.storage.snapshot = .ok s → s.Debtless

theorem Debtless.of_storage (debtless : m.storage.Debtless) : m.Debtless where
  persisted := debtless
  running := by
    intro env r meter K q e u h inner
    have holding : (m.topSite (m.topFrame r meter)).world.storage.Holding m.storage.total :=
      ⟨rfl, debtless.snapshot⟩
    exact (h.invariant inner (Storage.conserves _) holding).2
  funding := by
    intro a n s hn hs
    have hbalance : 0 ≤ m.balanceOf a := debtless.balanceOf a
    exact debtless.snapshot.setBalance (by omega) hs
  sweeping := by
    intro a beneficiary s hs
    obtain ⟨paid, hpaid, hs⟩ := sweep_eq_ok hs
    have hsource := debtless.snapshot.balanceOf a
    have htarget := debtless.snapshot.balanceOf beneficiary
    exact (debtless.snapshot.setBalance (by omega) hpaid).setBalance (Int.le_refl 0) hs

/-- What an operation leaves that took no effect. -/
theorem supply_kept {op : Operation} (kept : op.Kept m m') : m'.supply = m.supply := by
  unfold supply
  rw [kept.storage]

theorem nonneg_of_fund {a : Address} {n : Int} (h : (Operation.fund a n).succeeds m = true) :
    0 ≤ n := by
  refine Int.not_lt.1 fun hneg => ?_
  have hfails : Host.gave (fund a n m) = false := by
    unfold fund
    rw [if_pos hneg]
    rfl
  rw [Operation.succeeds, hfails] at h
  cases h

theorem fund_supply (reachable : m.Reachable) (debtless : m.Debtless) {a : Address} {n : Int}
    (h : (Operation.fund a n).succeeds m = true) :
    ((Operation.fund a n).after m).supply = m.supply + n ∧
      ((Operation.fund a n).after m).storage.Debtless := by
  have idle := reachable.idle
  have ends := (Operation.fund a n).ends idle
  have hn := nonneg_of_fund h
  rw [h] at ends
  generalize (Operation.fund a n).after m = m' at ends ⊢
  cases ends with
  | funded commits =>
    obtain ⟨s, hs⟩ : ∃ s, m.storage.snapshot.setBalance a (m.balanceOf a + n) = .ok s := ⟨_, rfl⟩
    have layer : s = ⟨m.storage.persisted,
        [Layer.empty.setBalance a (m.storage.balanceOf a + n)]⟩ := by
      have htop : (⟨m.storage.persisted, Layer.empty.setBalance a (m.storage.balanceOf a + n) ::
          m.storage.layers⟩ : Storage) = s := Except.ok.inj hs
      rw [← htop, idle]
    have htotal := Storage.total_setBalance hs
    have hbefore : m.storage.snapshot.total = m.supply := total_of_idle idle
    have hbalance : m.storage.snapshot.balanceOf a = m.balanceOf a := Storage.balanceOf_snapshot _ a
    have hsupply : m'.supply = s.total - 0 := commits.supply layer
    refine ⟨by omega, commits.debtless layer (debtless.funding a n s hn hs)⟩

theorem terminate_supply (reachable : m.Reachable) (debtless : m.Debtless) {a beneficiary : Address}
    (h : (Operation.terminate a beneficiary).succeeds m = true) :
    ((Operation.terminate a beneficiary).after m).supply =
      (if beneficiary ≠ "" ∧ beneficiary ≠ a then m.supply else m.supply - m.balanceOf a) ∧
      ((Operation.terminate a beneficiary).after m).storage.Debtless := by
  have idle := reachable.idle
  have hbefore : m.storage.snapshot.total = m.supply := total_of_idle idle
  have hbalance (b : Address) : m.storage.snapshot.balanceOf b = m.balanceOf b :=
    Storage.balanceOf_snapshot _ b
  rcases terminate_cases idle a beneficiary with ⟨f, hf⟩ | ⟨top, m', -, hchange, commits, hm'⟩
  · have hfails : Host.gave (terminate a beneficiary m) = false := by rw [hf]; rfl
    rw [Operation.succeeds, hfails] at h
    cases h
  have hafter : (Operation.terminate a beneficiary).after m = m'.note (.terminated a) :=
    congrArg Host.left hm'
  have hsum : [a].eraseDups = [a] := rfl
  rw [hafter]
  show m'.supply = _ ∧ m'.storage.Debtless
  have hsupply := commits.supply rfl
  rw [hsum, List.map_singleton, List.sum_singleton] at hsupply
  by_cases hb : beneficiary = ""
  · rw [if_pos hb] at hchange
    have hs := Except.ok.inj hchange
    rw [← hs, hbalance] at hsupply
    rw [if_neg fun h => h.1 hb]
    exact ⟨by omega, commits.debtless hs (debtless.persisted.snapshot)⟩
  · rw [if_neg hb] at hchange
    have hdebtless := commits.debtless rfl (debtless.sweeping a beneficiary _ hchange)
    obtain ⟨hleft, htotal⟩ := sweep_total hchange
    refine ⟨?_, hdebtless⟩
    by_cases ha : beneficiary = a
    · rw [if_pos ha, hbalance] at htotal
      rw [if_neg fun h => h.2 ha]
      omega
    · rw [if_neg ha] at htotal
      rw [if_pos ⟨hb, ha⟩]
      omega

theorem conserving (reachable : m.Reachable) (debtless : m.Debtless) : m.Conserving where
  failed := fun op hs => supply_kept ((op.atomic reachable).1 hs)
  funded := fun _ _ hs => (fund_supply reachable debtless hs).1
  called := fun _ _ _ _ _ _ _ _ _ _ h =>
    let ⟨t, merged, _⟩ := call_merged reachable.idle debtless.persisted h
    ⟨t, merged⟩
  deployed := fun _ _ _ _ _ _ _ h =>
    let ⟨c, registry, t, registered, merged, _⟩ := deploy_merged reachable.idle debtless.persisted h
    ⟨c, registry, t, registered, merged⟩
  terminated := fun _ _ hs => (terminate_supply reachable debtless hs).1
  blockSet := fun _ => rfl

/-! ## All the value ever made -/

/-- What an operation on `m` makes. -/
def minted (m : Machine) (op : Operation) : Int :=
  match op with
  | .fund _ n => if op.succeeds m then n else 0
  | _ => 0

/-- What operations in turn make, from `m` on. -/
def mintedAll (m : Machine) : List Operation → Int
  | [] => 0
  | op :: rest => m.minted op + (op.after m).mintedAll rest

theorem minted_of_fails {op : Operation} (h : op.succeeds m = false) : m.minted op = 0 := by
  cases op with
  | fund a n =>
    unfold minted
    simp only [h]
    rfl
  | _ => rfl

theorem Merged.supply_le {t : Site} (merged : m.Merged r t m') (debtless : t.world.storage.Debtless) :
    m'.supply ≤ m.supply := by
  have hlost : 0 ≤ (t.frame.terminations.eraseDups.map t.world.storage.balanceOf).sum := by
    refine List.sum_nonneg fun n hn => ?_
    obtain ⟨a, -, rfl⟩ := List.mem_map.1 hn
    exact debtless.balanceOf a
  rw [merged.supply]
  omega

/-- No operation makes a debt, nor more value than the host means to make. -/
theorem after_accounts (reachable : m.Reachable) (debtless : m.Debtless) (op : Operation) :
    (op.after m).storage.Debtless ∧ (op.after m).supply ≤ m.supply + m.minted op := by
  cases hs : op.succeeds m with
  | false =>
    have kept := (op.atomic reachable).1 hs
    refine ⟨by rw [kept.storage]; exact debtless.persisted, ?_⟩
    rw [supply_kept kept, minted_of_fails hs]
    omega
  | true =>
    cases op with
    | fund a n =>
      obtain ⟨hsupply, hdebtless⟩ := fund_supply reachable debtless hs
      refine ⟨hdebtless, ?_⟩
      unfold minted
      simp only [hs, if_true]
      omega
    | terminate a beneficiary =>
      obtain ⟨hsupply, hdebtless⟩ := terminate_supply reachable debtless hs
      have hbalance : 0 ≤ m.balanceOf a := debtless.persisted.balanceOf a
      refine ⟨hdebtless, ?_⟩
      show _ ≤ m.supply + 0
      rw [hsupply]
      split <;> omega
    | setBlock b => exact ⟨debtless.persisted, Int.le_of_eq (Int.add_zero _).symm⟩
    | call sender target fn args value gas =>
      obtain ⟨v, used, logged, hcall⟩ := Operation.call_of_succeeds hs
      obtain ⟨t, merged, hlayer, hdebtless⟩ :=
        call_merged reachable.idle debtless.persisted hcall
      have hle := merged.supply_le hlayer
      refine ⟨hdebtless, ?_⟩
      show _ ≤ m.supply + 0
      omega
    | deploy code args deployer value gas =>
      obtain ⟨a, hdeploy⟩ := Operation.deploy_of_succeeds hs
      obtain ⟨c, registry, t, -, merged, hlayer, hdebtless⟩ :=
        deploy_merged reachable.idle debtless.persisted hdeploy
      have hle : _ ≤ m.supply := merged.supply_le hlayer
      refine ⟨hdebtless, ?_⟩
      show _ ≤ m.supply + 0
      omega

theorem perform_accounts (reachable : m.Reachable) (debtless : m.Debtless) (ops : List Operation) :
    (m.perform ops).Debtless ∧ (m.perform ops).supply ≤ m.supply + m.mintedAll ops := by
  induction ops generalizing m with
  | nil => exact ⟨debtless, Int.le_of_eq (Int.add_zero _).symm⟩
  | cons op rest ih =>
    obtain ⟨hdebtless, hsupply⟩ := after_accounts reachable debtless op
    obtain ⟨hrest, hle⟩ := ih (reachable.after op) (.of_storage hdebtless)
    refine ⟨hrest, ?_⟩
    show ((op.after m).perform rest).supply ≤ m.supply + (m.minted op + (op.after m).mintedAll rest)
    omega

/-- Value is conserved.  Whatever a host has done, its next operation changes the supply by
what it makes or by what retired contracts take with them and by nothing else, there are no
debts anywhere, and there is no more value than the host has made. -/
theorem supply_conserved (settings : Settings) (hash : Bytes → Bytes) (ops : List Operation) :
    ((start settings hash).perform ops).Conserving ∧ ((start settings hash).perform ops).Debtless ∧
      ((start settings hash).perform ops).supply ≤ (start settings hash).mintedAll ops := by
  have fresh : (start settings hash).Reachable := ⟨settings, hash, [], rfl⟩
  obtain ⟨debtless, hle⟩ := perform_accounts fresh (.of_storage .empty) ops
  have hempty : (start settings hash).supply = 0 := rfl
  exact ⟨conserving ⟨settings, hash, ops, rfl⟩ debtless, debtless, by omega⟩

/-- A contract takes with it what it owns, unless there is someone to have it. -/
example : ((start .standard fun _ => Bell.digest).perform [Bell.deployment, .fund Bell.address 5,
      .fund Address.zero 2, .terminate Bell.address Address.zero]).supply = 7 ∧
    ((start .standard fun _ => Bell.digest).perform [Bell.deployment, .fund Bell.address 5,
      .fund Address.zero 2, .terminate Bell.address ""]).supply = 2 := by decide +kernel

end Machine

end ContractVM
