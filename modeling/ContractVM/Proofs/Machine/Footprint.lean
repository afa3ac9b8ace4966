/-
Whose account a transaction touches.

A transaction that commits changes the slots of an address only if a frame that acts
for it lasts, that is, committed together with all its callers.  The same frames are the
only ones that can lower its balance, unless the address is that of the caller, who pays
for the first frame.  Code that runs in a delegated call leaves no mark on the address it
comes from, therefore, and an account without code loses nothing to the calls of others
(`Machine.Footprint`).

`Run.spares` says this of what the frames write.  What a contract loses when it is retired
it loses to a frame of its own, since only such a frame marks it for its end.
-/
import ContractVM.Proofs.Exec.Footprint
import ContractVM.Proofs.Machine.Lasting

namespace ContractVM

/-! ## Frames that last -/

namespace Trail

variable {t : Trail} {a : Address}

/-- A frame that acts for `a` committed, and so did all its callers. -/
def LastsFor (t : Trail) (a : Address) : Prop :=
  ∃ f, (f, a) ∈ t.filterMap Step.acting? ∧ t.lasts none f = true

theorem lastsFor_cons {step : Step} (h : step.Silent) :
    LastsFor (step :: t) a ↔ t.LastsFor a := by
  have hacting : List.filterMap Step.acting? (step :: t) = t.filterMap Step.acting? := by
    rw [List.filterMap_cons, h.acting]
  refine exists_congr fun f => ?_
  rw [hacting, lasts_cons h]

theorem lastsFor_of_mem_lastingEnds
    (acts : ∀ x ∈ t.filterMap Step.actor?, x ∈ t.filterMap Step.acting?)
    (h : a ∈ t.lastingEnds) : t.LastsFor a := by
  obtain ⟨⟨f, b⟩, hmem, rfl⟩ := List.mem_map.1 h
  obtain ⟨hdestroyed, hlasts⟩ := List.mem_filter.1 hmem
  obtain ⟨step, hstep, hends⟩ := List.mem_filterMap.1 hdestroyed
  refine ⟨f, acts _ (List.mem_filterMap.2 ⟨step, List.mem_reverse.1 hstep, ?_⟩), hlasts⟩
  cases step <;> cases hends
  rfl

end Trail

namespace Machine

variable {m m' : Machine} {c : Address} {live : Registry} {steps : Trail}

/-- What a transaction that `c` paid for and that took the steps `steps` has left alone;
`live` are the contracts there were meanwhile. -/
structure Footprint (m : Machine) (live : Registry) (c : Address) (steps : Trail)
    (m' : Machine) : Prop where
  trail : m'.trail = steps ++ m.trail
  slots : ∀ a key, m'.storage.persisted.slot? a key ≠ m.storage.persisted.slot? a key →
    steps.LastsFor a
  balance : ∀ a, m'.balanceOf a < m.balanceOf a → a = c ∨ steps.LastsFor a
  codeless : ∀ a, live.find? a = none → a ≠ c → m.balanceOf a ≤ m'.balanceOf a

theorem Footprint.note (h : m.Footprint live c steps m') {step : Step} (silent : step.Silent) :
    m.Footprint live c (step :: steps) (m'.note step) where
  trail := congrArg (step :: ·) h.trail
  slots := fun a key hne => (Trail.lastsFor_cons silent).2 (h.slots a key hne)
  balance := fun a hlt => (h.balance a hlt).imp_right (Trail.lastsFor_cons silent).2
  codeless := h.codeless

/-! ## A transaction that commits -/

section Commit

variable {r : Request} {meter : GasMeter} {t : Site} {top : Layer} {a : Address}

/-- The first frame lasts, and so do the callees that it keeps. -/
theorem lastsFor_committing {inner : Trail}
    (told : Telling (m.topSite (m.topFrame r meter)) t inner)
    (h : r.storageAddress = a ∨ inner.KeepsFor 0 a) : (committing r meter t inner).LastsFor a := by
  have hseg : Segment 0 r.storageAddress 1 t.world.opened inner := told.segment
  obtain ⟨f, hf, -, hlasts⟩ := (Closing.of_commit 0 t.frame.tokens t.frame.meter.left).lasts_of_committed
    (p := none) hseg (fun _ h => nomatch h)
    (Closing.committed_of_commit 0 t.frame.tokens t.frame.meter.left) h 0 r.codeAddress meter.budget
  exact ⟨f, hf, hlasts⟩

/-- A frame that lasts acts for a contract that was live while the code ran. -/
theorem live_of_lastsFor {inner : Trail} (direct : r.storageAddress = r.codeAddress)
    (ran : Run (.frame m.environment r) (m.topSite (m.topFrame r meter)) none t)
    (told : Telling (m.topSite (m.topFrame r meter)) t inner)
    (h : (committing r meter t inner).LastsFor a) : m.registry.find? a ≠ none := by
  obtain ⟨f, hf, -⟩ := h
  rcases (Closing.of_commit 0 _ _).mem_acting_around.1 hf with hf | hf
  · obtain ⟨l, hl, live⟩ := ran.liveSince (m.topSite_alive meter direct)
    rw [Site.acting, told.trail, List.filterMap_append] at hl
    exact live _ (List.append_cancel_right hl ▸ hf)
  · cases hf
    rw [direct]
    exact ran.code_live

/-- The frames of a transaction spare an address that none of those acts for that last. -/
theorem spares_merged (ran : Run (.frame m.environment r) (m.topSite (m.topFrame r meter)) none t)
    (storage : t.world.storage = ⟨m.storage.persisted, [top]⟩)
    (hlasts : ∀ inner, Telling (m.topSite (m.topFrame r meter)) t inner →
      ¬ (committing r meter t inner).LastsFor a) :
    m.storage.Spares a (r.transfers = true ∧ r.caller = a) ⟨m.storage.persisted.merge top, []⟩ := by
  obtain ⟨inner, told⟩ := ran.tells (Nat.lt_succ_self 0)
  have inside := ran.spares (Nat.lt_succ_self 0)
    (fun hself => hlasts inner told (lastsFor_committing told (.inl hself)))
    fun inner told hkeeps => hlasts inner told (lastsFor_committing told (.inr hkeeps))
  have merged : t.world.storage.commit = .ok (some top.delta, ⟨m.storage.persisted.merge top, []⟩) := by
    rw [storage]
    rfl
  exact inside.commit merged

/-- What the code of a transaction spares, the commit spares unless it is retired. -/
theorem Settled.spares {drawn : Prop} {entry : Bytes} {logged : List LoggedEvent}
    (settled : m.Settled steps top entry logged m') (idle : m'.storage.layers = [])
    (ha : a ∉ steps.lastingEnds)
    (h : m.storage.Spares a drawn ⟨m.storage.persisted.merge top, []⟩) :
    m.storage.Spares a drawn m'.storage where
  slots := fun key => by
    have hmerged := Storage.peek?_idle (a := a) (s := ⟨m.storage.persisted.merge top, []⟩) rfl key
    rw [Storage.peek?_idle idle, settled.slots, if_neg ha, ← hmerged]
    exact h.slots key
  balance := fun hd => by
    have hmerged := Storage.balanceOf_idle (a := a)
      (s := ⟨m.storage.persisted.merge top, []⟩) rfl
    rw [Storage.balanceOf_idle idle, settled.balances, if_neg ha, ← hmerged]
    exact h.balance hd

theorem Commits.footprint (idle : m.storage.layers = []) (direct : r.storageAddress = r.codeAddress)
    (ran : Run (.frame m.environment r) (m.topSite (m.topFrame r meter)) none t)
    (storage : t.world.storage = ⟨m.storage.persisted, [top]⟩)
    (commits : m.Commits top t.frame.terminations t.frame.pending m')
    (trail : m'.trail = closing t ++ t.world.trail) :
    ∃ steps, m.Footprint m.registry r.caller steps m' := by
  obtain ⟨steps, entry, settled⟩ := commits.settled ran trail
  have hid : t.frame.id = 0 := ran.same.id
  have hsteps : ∀ inner, Telling (m.topSite (m.topFrame r meter)) t inner →
      steps = committing r meter t inner := fun inner told =>
    List.append_cancel_right (settled.trail.symm.trans (trail.trans (closing_append told hid)))
  obtain ⟨inner, told⟩ := ran.tells (Nat.lt_succ_self 0)
  have idle' : m'.storage.layers = [] := congrArg Storage.layers commits.storage
  have spares (a : Address) (hlasts : ¬ steps.LastsFor a) :
      m.storage.Spares a (r.transfers = true ∧ r.caller = a) m'.storage :=
    settled.spares idle' (fun hends => hlasts (Trail.lastsFor_of_mem_lastingEnds settled.acts hends))
      (spares_merged ran storage fun inner told => hsteps inner told ▸ hlasts)
  have balance : ∀ a, m'.balanceOf a < m.balanceOf a → a = r.caller ∨ steps.LastsFor a := by
    intro a hlt
    by_cases hlasts : steps.LastsFor a
    · exact .inr hlasts
    · refine .inl (Classical.byContradiction fun hc => Int.not_le.2 hlt ?_)
      exact (spares a hlasts).balance fun hdrawn => hc hdrawn.2.symm
  refine ⟨steps, settled.trail, fun a key hne => ?_, balance, fun a hdead hc => ?_⟩
  · refine Classical.byContradiction fun hlasts => hne ?_
    rw [← Storage.peek?_idle idle', ← Storage.peek?_idle idle]
    exact (spares a hlasts).slots key
  · refine Int.not_lt.1 fun hlt => ?_
    have hlasts := (balance a hlt).resolve_left hc
    exact live_of_lastsFor direct ran told (hsteps inner told ▸ hlasts) hdead

end Commit

/-! ## Calls and deployments -/

/-- A transaction touches the accounts that its lasting frames act for, and that of its
caller. -/
theorem commit_footprint (reachable : m.Reachable) :
    (∀ sender target fn args value gas v used logged m',
      call sender target fn args value gas m = .ok (.committed v used logged) m' →
        ∃ steps, m.Footprint m.registry sender steps m') ∧
    ∀ code args deployer value gas a m', deploy code args deployer value gas m = .ok a m' →
      ∃ c registry steps, (m.registry.numbered deployer).register a code = .ok (c, registry) ∧
        m.Footprint registry deployer steps m' := by
  constructor
  case left =>
    intro sender target fn args value gas v used logged m' h
    have ends := call_ends reachable.idle sender target fn args value gas
    rw [h] at ends
    cases ends with
    | committed budget ran storage commits trail =>
      obtain ⟨steps, footprint⟩ := Commits.footprint reachable.idle rfl ran storage commits trail
      exact ⟨_, footprint.note ⟨rfl, rfl, rfl, rfl, rfl⟩⟩
  case right =>
    intro code args deployer value gas a m' h
    have ends := deploy_ends reachable.idle code args deployer value gas
    rw [h] at ends
    cases ends with
    | @deployed _ c registry _ _ _ m' derived registered ran storage commits trail =>
      obtain ⟨steps, footprint⟩ := Commits.footprint (m := { m with registry := registry })
        reachable.idle rfl ran storage commits trail
      have declared : m.Footprint registry deployer steps
          { m' with log := m'.log.declare a c.events.values } := { footprint with }
      exact ⟨c, registry, _, registered, declared.note ⟨rfl, rfl, rfl, rfl, rfl⟩⟩

/-! ## A contract that runs the code of another one -/

namespace Mask

/-- A hash that gives an address for each count. -/
def counted (bytes : Bytes) : Bytes := Bell.digest.dropLast ++ [bytes.getLastD 0]

def face : Address := "0xbd770416a3345f91e4b34576cb804a576fa48e80"

def wearer : Address := "0xbd770416a3345f91e4b34576cb804a576fa48e01"

def mark : FunctionDef where
  name := "mark"
  visibility := .external
  mutability := .mutating
  body := [.sstore (.const (.text "mark")) (.const (.int 1))]

def wear : FunctionDef where
  name := "wear"
  visibility := .external
  mutability := .mutating
  body := [.call { kind := .delegate, target := .const (.text face), fn := "mark" }]

def code (name : String) (fn : FunctionDef) : ContractCode where
  name := name
  functions := [fn]

def deploys (name : String) (fn : FunctionDef) : Operation :=
  .deploy (code name fn) ∅ Address.zero 0 none

def made : Machine :=
  (start .standard counted).perform [deploys "Face" mark, deploys "Wearer" wear]

def worn : EStateM.Result Fault Machine CallResult := call Address.zero wearer "wear" ∅ 0 none made

/-- The mark that a call leaves on an address, if it commits. -/
def marked (a : Address) : EStateM.Result Fault Machine CallResult → Option (Option Value)
  | .ok (.committed ..) m => some (m.storage.persisted.slot? a "mark")
  | _ => none

end Mask

open Mask in
theorem commit_footprint_mask :
    (∃ v used logged m', worn = .ok (.committed v used logged) m' ∧
      m'.storage.persisted.slot? face "mark" = none ∧
      m'.storage.persisted.slot? wearer "mark" = some (.int 1) ∧
      ∃ steps, made.Footprint made.registry Address.zero steps m') ∧
    ∃ a m' c registry steps,
      deploy (code "Face" mark) ∅ Address.zero 0 none (start .standard counted) = .ok a m' ∧
        (Registry.empty.numbered Address.zero).register a (code "Face" mark) = .ok (c, registry) ∧
          (start .standard counted).Footprint registry Address.zero steps m' := by
  have fresh : (start .standard counted).Reachable := ⟨.standard, _, [], rfl⟩
  have reachable : made.Reachable := ⟨.standard, _, [deploys "Face" mark, deploys "Wearer" wear], rfl⟩
  constructor
  · have hface : marked face worn = some none := by decide +kernel
    have hwearer : marked wearer worn = some (some (.int 1)) := by decide +kernel
    cases hw : worn with
    | error f m' =>
      rw [hw] at hface
      cases hface
    | ok r m' =>
      rw [hw] at hface hwearer
      cases r with
      | reverted failure used => cases hface
      | committed v used logged =>
        exact ⟨v, used, logged, m', rfl, Option.some.inj hface, Option.some.inj hwearer,
          (commit_footprint reachable).1 _ _ _ _ _ _ v used logged m' hw⟩
  · have hgave : Host.gave (deploy (code "Face" mark) ∅ Address.zero 0 none
        (start .standard counted)) = true := by decide +kernel
    cases hd : deploy (code "Face" mark) ∅ Address.zero 0 none (start .standard counted) with
    | error f m' =>
      rw [hd] at hgave
      cases hgave
    | ok a m' =>
      obtain ⟨c, registry, steps, registered, footprint⟩ :=
        (commit_footprint fresh).2 _ _ _ _ _ a m' hd
      exact ⟨a, m', c, registry, steps, rfl, registered, footprint⟩

end Machine

end ContractVM
