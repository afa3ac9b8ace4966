/-
A committed transaction logs, returns and journals what lasts, and nothing else.

The events of the first frame's buffer are those of its trail that last
(`Run.tells`), and its terminations likewise.  `Machine.Settled` states what a
commit makes of both, in terms of the trail alone, and `call_settled` and
`deploy_settled` prove it of the two operations that run code.
-/
import ContractVM.Proofs.Exec.Buffers
import ContractVM.Proofs.Machine.Atomic
import ContractVM.Proofs.Number
import ContractVM.Proofs.Storage.Layer

namespace ContractVM

/-! ## Retiring in turn -/

theorem Registry.find?_foldl_retire (l : List Address) (r : Registry) (a : Address) :
    (l.foldl Registry.retire r).find? a = if a ∈ l then none else r.find? a :=
  Table.foldl_drop (·.find? a) (fun r b => r.find?_retire b a) l r

theorem Registry.mem_retired_foldl_retire (l : List Address) (r : Registry) (a : Address) :
    a ∈ (l.foldl Registry.retire r).retired ↔ a ∈ r.retired ∨ a ∈ l := by
  induction l generalizing r with
  | nil => exact (or_iff_left fun h => nomatch h).symm
  | cons b rest ih =>
    rw [List.foldl_cons, ih, Registry.mem_retired_retire, List.mem_cons, or_assoc]

/-! ## Consecutive places in the log -/

theorem EventLog.logIndex_number {base i : Nat} {events : List Event} {e : LoggedEvent}
    (h : (EventLog.number base events)[i]? = some e) (exact : base + i ≤ 2 ^ 53) :
    e.logIndex = .ofNat (base + i) := by
  unfold EventLog.number at h
  rw [List.getElem?_mapIdx, Option.map_eq_some_iff] at h
  obtain ⟨e', -, rfl⟩ := h
  exact Number.nearest_of_le exact

/-! ## Trails of whole transactions -/

namespace Trail

variable {step : Step}

/-- A step of the host after the transaction is nothing of the transaction. -/
theorem lasts_cons (h : step.Silent) (t : Trail) (base : Option Nat) (f : Nat) :
    lasts (step :: t) base f = t.lasts base f := by
  refine lasts_congr (fun _ => True) (fun f _ => ?_) (fun f _ => ?_) (fun f q _ _ => .inr trivial) f
    trivial
  · unfold Committed
    rw [List.filterMap_cons, h.commit]
  · unfold caller?
    rw [List.filterMap_cons, h.opening]

theorem did_lasts_cons {α : Type} {what : Step → Option (Nat × α)} (acted : Step.Acted what)
    (h : step.Silent) (t : Trail) :
    did (step :: t) what (lasts (step :: t) none) = t.did what (t.lasts none) := by
  have happend : step :: t = [step] ++ t := rfl
  rw [happend, did_append, h.did acted, List.append_nil]
  exact did_congr fun x _ => lasts_cons h t none x.1

theorem lastingEvents_cons (h : step.Silent) (t : Trail) :
    lastingEvents (step :: t) = t.lastingEvents := did_lasts_cons Step.acted_emission h t

theorem lastingEnds_cons (h : step.Silent) (t : Trail) :
    lastingEnds (step :: t) = t.lastingEnds := did_lasts_cons Step.acted_destruction h t

end Trail

namespace Machine

variable {m m' : Machine} {steps : Trail} {top : Layer} {entry : Bytes} {logged : List LoggedEvent}

/-- What a committed transaction makes of the steps it took: `top` is what it wrote,
`entry` its journal entry and `logged` the events it gives. -/
structure Settled (m : Machine) (steps : Trail) (top : Layer) (entry : Bytes)
    (logged : List LoggedEvent) (m' : Machine) : Prop where
  trail : m'.trail = steps ++ m.trail
  /-- A frame ends once. -/
  apart : ∀ f, steps.Committed f → ¬ steps.Undone f
  /-- A frame emits and destroys in the name of the address it was opened for. -/
  acts : ∀ x ∈ steps.filterMap Step.actor?, x ∈ steps.filterMap Step.acting?
  numbered : logged = EventLog.number m.log.size steps.lastingEvents
  consecutive : ∀ i e, logged[i]? = some e → m.log.size + i ≤ 2 ^ 53 →
    e.logIndex = .ofNat (m.log.size + i)
  entries : m'.log.entries = m.log.entries ++ logged
  encoded : Codec.encodeEntry ⟨{ top.delta with destroyed := steps.lastingEnds.eraseDups }, logged⟩ =
    .ok entry
  journal : m'.journal = m.journal ++ [entry]
  live : ∀ a, m'.registry.find? a = if a ∈ steps.lastingEnds then none else m.registry.find? a
  retired : ∀ a, a ∈ m'.registry.retired ↔ a ∈ m.registry.retired ∨ a ∈ steps.lastingEnds
  slots : ∀ a key, m'.storage.persisted.slot? a key =
    if a ∈ steps.lastingEnds then none else (m.storage.persisted.merge top).slot? a key
  balances : ∀ a, m'.storage.persisted.balance? a =
    if a ∈ steps.lastingEnds then none else (m.storage.persisted.merge top).balance? a

/-- A notice of the host changes nothing of what was settled. -/
theorem Settled.note (h : Settled m steps top entry logged m') {step : Step} (silent : step.Silent) :
    Settled m (step :: steps) top entry logged (m'.note step) := by
  have hends := Trail.lastingEnds_cons silent steps
  constructor
  case trail => exact congrArg (step :: ·) h.trail
  case apart =>
    intro f hc hu
    unfold Trail.Committed at hc
    unfold Trail.Undone at hu
    rw [List.filterMap_cons, silent.commit] at hc
    rw [List.filterMap_cons, silent.undoing] at hu
    exact h.apart f hc hu
  case acts =>
    intro x hx
    rw [List.filterMap_cons, silent.actor] at hx
    rw [List.filterMap_cons, silent.acting]
    exact h.acts x hx
  case numbered =>
    rw [Trail.lastingEvents_cons silent]
    exact h.numbered
  case consecutive => exact h.consecutive
  case entries => exact h.entries
  case encoded => exact hends ▸ h.encoded
  case journal => exact h.journal
  case live => exact hends ▸ h.live
  case retired => exact hends ▸ h.retired
  case slots => exact hends ▸ h.slots
  case balances => exact hends ▸ h.balances

/-- The steps of a transaction that committed at `t`, whose first frame took the steps
`inner`. -/
def committing (r : Request) (meter : GasMeter) (t : Site) (inner : Trail) : Trail :=
  Closing.around (Trail.releases 0 t.frame.tokens ++ [.committed 0 t.frame.meter.left]) inner 0 none
    0 r.storageAddress r.codeAddress meter.budget

theorem closing_append {r : Request} {meter : GasMeter} {t : Site} {inner : Trail}
    (told : Telling (m.topSite (m.topFrame r meter)) t inner) (hid : t.frame.id = 0) :
    closing t ++ t.world.trail = committing r meter t inner ++ m.trail := by
  rw [closing, hid, told.trail]
  show _ = ((_ ++ [_]) ++ (inner ++ [_])) ++ m.trail
  simp only [List.append_assoc]
  rfl

theorem Commits.settled {r : Request} {meter : GasMeter} {t : Site}
    (commits : m.Commits top t.frame.terminations t.frame.pending m')
    (ran : Run (.frame m.environment r) (m.topSite (m.topFrame r meter)) none t)
    (trail : m'.trail = closing t ++ t.world.trail) :
    ∃ steps entry, m.Settled steps top entry (EventLog.number m.log.size t.frame.pending) m' := by
  obtain ⟨inner, told⟩ := ran.tells (Nat.lt_succ_self 0)
  have hid : t.frame.id = 0 := ran.same.id
  have hseg : Segment 0 r.storageAddress 1 t.world.opened inner := told.segment
  have closing := Closing.of_commit 0 t.frame.tokens t.frame.meter.left
  have hcommitted := Closing.committed_of_commit 0 t.frame.tokens t.frame.meter.left
  let steps := committing r meter t inner
  have hevents : steps.lastingEvents = t.frame.pending := by
    have hdid : steps.lastingEvents = if Trail.Committed _ 0 then _ else [] :=
      closing.did_around hseg Step.acted_emission fun _ h => nomatch h
    rw [if_pos hcommitted] at hdid
    exact hdid.trans told.pending.symm
  have hends : steps.lastingEnds = t.frame.terminations := by
    have hdid : steps.lastingEnds = if Trail.Committed _ 0 then _ else [] :=
      closing.did_around hseg Step.acted_destruction fun _ h => nomatch h
    rw [if_pos hcommitted] at hdid
    exact hdid.trans told.terminations.symm
  have hmem : ∀ a, a ∈ t.frame.terminations.eraseDups ↔ a ∈ steps.lastingEnds := fun a => by
    rw [hends, List.mem_eraseDups]
  obtain ⟨entry, hentry, hjournal⟩ := commits.journal
  refine ⟨steps, entry, ?_⟩
  constructor
  case trail => exact trail.trans (closing_append told hid)
  case apart => exact closing.apart_around hseg
  case acts => exact closing.acts_around hseg
  case numbered => rw [hevents]
  case consecutive => exact fun i e he => EventLog.logIndex_number he
  case entries => rw [commits.log]
  case encoded =>
    rw [hends]
    exact hentry
  case journal => exact hjournal
  case live =>
    intro a
    rw [commits.registry, Registry.find?_foldl_retire]
    simp only [hmem]
  case retired =>
    intro a
    rw [commits.registry, Registry.mem_retired_foldl_retire, hmem]
  case slots =>
    intro a key
    rw [commits.storage, Layer.slot?_foldl_erase]
    simp only [hmem]
  case balances =>
    intro a
    rw [commits.storage, Layer.balance?_foldl_erase]
    simp only [hmem]

/-! ## Calls and deployments -/

/-- A call that commits settles what its trail says, and gives the events it logged. -/
theorem call_settled (reachable : m.Reachable) {sender target : Address} {fn : String} {args : Args}
    {value : Int} {gas : Option Int} {v : Option Value} {used : Int}
    (h : call sender target fn args value gas m = .ok (.committed v used logged) m') :
    ∃ steps top entry, m.Settled steps top entry logged m' := by
  have ends := call_ends reachable.idle sender target fn args value gas
  rw [h] at ends
  cases ends with
  | @committed meter t top _ m'' _ _ _ budget ran storage commits trail =>
    obtain ⟨steps, entry, settled⟩ := commits.settled ran trail
    exact ⟨_, top, entry, settled.note ⟨rfl, rfl, rfl, rfl, rfl⟩⟩

/-- A deployment that commits settles what its trail says, with the new contract
registered. -/
theorem deploy_settled (reachable : m.Reachable) {code : ContractCode} {args : Args}
    {deployer a : Address} {value : Int} {gas : Option Int}
    (h : deploy code args deployer value gas m = .ok a m') :
    ∃ c registry steps top entry logged,
      (m.registry.numbered deployer).register a code = .ok (c, registry) ∧
        { m with registry := registry }.Settled steps top entry logged m' := by
  have ends := deploy_ends reachable.idle code args deployer value gas
  rw [h] at ends
  cases ends with
  | @deployed _ c registry meter t top m'' derived registered ran storage commits trail =>
    obtain ⟨steps, entry, settled⟩ := commits.settled ran trail
    have declared : { m with registry := registry }.Settled steps top entry
        (EventLog.number m.log.size t.frame.pending)
        { m'' with log := m''.log.declare a c.events.values } :=
      { settled with }
    exact ⟨c, registry, _, top, entry, _, registered, declared.note ⟨rfl, rfl, rfl, rfl, rfl⟩⟩

/-- Whatever code runs, a transaction that commits logs, returns and journals the
events that last, and retires, wipes and journals the contracts whose end lasts. -/
theorem commit_settles (reachable : m.Reachable) :
    (∀ sender target fn args value gas v used logged m',
      call sender target fn args value gas m = .ok (.committed v used logged) m' →
        ∃ steps top entry, m.Settled steps top entry logged m') ∧
    ∀ code args deployer value gas a m', deploy code args deployer value gas m = .ok a m' →
      ∃ c registry steps top entry logged,
        (m.registry.numbered deployer).register a code = .ok (c, registry) ∧
          { m with registry := registry }.Settled steps top entry logged m' :=
  ⟨fun _ _ _ _ _ _ _ _ _ _ h => call_settled reachable h,
    fun _ _ _ _ _ _ _ h => deploy_settled reachable h⟩

/-! ## A call with an event that lasts and one that does not -/

namespace Bell

/-- The hash of the zero address and the count zero, which gives the address of the
first contract. -/
def digest : Bytes :=
  [101, 252, 122, 131, 9, 145, 33, 207, 146, 159, 23, 103, 189, 119, 4, 22, 163, 52, 95, 145, 228,
    179, 69, 118, 203, 128, 74, 87, 111, 164, 142, 177]

def address : Address := "0xbd770416a3345f91e4b34576cb804a576fa48eb1"

def jam : FunctionDef where
  name := "jam"
  visibility := .external
  mutability := .mutating
  body := [.emit "Rang" ∅, .revert "stuck"]

def ring : FunctionDef where
  name := "ring"
  visibility := .external
  mutability := .mutating
  body := [
    .emit "Rang" ∅,
    .sstore (.const (.text "rung")) (.const (.int 1)),
    .call { kind := .call, target := .env .self, fn := "jam", caught := some true }]

def code : ContractCode where
  name := "Bell"
  functions := [ring, jam]
  events := [⟨"Rang", []⟩]

def deployment : Operation := .deploy code ∅ Address.zero 0 none

def deployed : Machine := (start .standard fun _ => digest).perform [deployment]

def rung : EStateM.Result Fault Machine CallResult := call Address.zero address "ring" ∅ 0 none deployed

def count : EStateM.Result Fault Machine CallResult → Nat
  | .ok (.committed _ _ logged) _ => logged.length
  | _ => 0

end Bell

open Bell in
theorem commit_settles_bell :
    (∃ v used logged m', rung = .ok (.committed v used logged) m' ∧ logged.length = 1 ∧
      ∃ steps top entry, deployed.Settled steps top entry logged m') ∧
    ∃ a m' c registry steps top entry logged,
      deploy code ∅ Address.zero 0 none (start .standard fun _ => digest) = .ok a m' ∧
        (Registry.empty.numbered Address.zero).register a code = .ok (c, registry) ∧
          { start .standard fun _ => digest with registry := registry }.Settled steps top entry
            logged m' := by
  have fresh : (start .standard fun _ => digest).Reachable := ⟨.standard, _, [], rfl⟩
  have reachable : deployed.Reachable := ⟨.standard, _, [deployment], rfl⟩
  constructor
  · have hcount : count rung = 1 := by decide +kernel
    cases hr : rung with
    | error f m' =>
      rw [hr] at hcount
      cases hcount
    | ok r m' =>
      cases r with
      | reverted failure used =>
        rw [hr] at hcount
        cases hcount
      | committed v used logged =>
        rw [hr] at hcount
        exact ⟨v, used, logged, m', rfl, hcount,
          (commit_settles reachable).1 _ _ _ _ _ _ v used logged m' hr⟩
  · have hgave : Host.gave (deploy code ∅ Address.zero 0 none (start .standard fun _ => digest)) =
        true := by decide +kernel
    cases hd : deploy code ∅ Address.zero 0 none (start .standard fun _ => digest) with
    | error f m' =>
      rw [hd] at hgave
      cases hgave
    | ok a m' =>
      obtain ⟨c, registry, steps, top, entry, logged, registered, settled⟩ :=
        (commit_settles fresh).2 _ _ _ _ _ a m' hd
      exact ⟨a, m', c, registry, steps, top, entry, logged, rfl, registered, settled⟩

end Machine

end ContractVM
