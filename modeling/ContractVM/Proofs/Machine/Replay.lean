/-
The journal rebuilds the machine.

Every commit journals its layer as a delta and its events, and replaying an entry
does to the storage and the log what the commit did (`Commits.replay`).  That
takes well-formed addresses, which a run has if its host names no others
(`Operation.replayable_after`), and texts that come back from their bytes.  A host's text
with a surrogate that has no partner is not one of them (`lone_surrogate_lost`).
-/
import ContractVM.Proofs.Exec.Within
import ContractVM.Proofs.Machine.Lasting

namespace ContractVM

/-- Every address that the host names is well-formed. -/
def Operation.wellAddressed : Operation → Bool
  | .deploy _ _ deployer _ _ => Address.isValid deployer
  | .call sender target _ _ _ _ => Address.isValid sender && Address.isValid target
  | .fund a _ => Address.isValid a
  | .terminate a beneficiary => Address.isValid a && (beneficiary == "" || Address.isValid beneficiary)
  | .setBlock _ => true

theorem isValid_of_deriveAddress {hash : Bytes → Bytes} {deployer a : Address} {nonce : Int}
    (h : deriveAddress hash deployer nonce = .ok a) : Address.isValid a = true := by
  obtain ⟨named, -, h⟩ := Codec.bind_eq_ok.1 h
  simp only at h
  split at h
  · cases h
  · obtain ⟨packed, -, h⟩ := Codec.bind_eq_ok.1 h
    unfold Codec.readAddress at h
    split at h
    · next hbytes =>
      cases h
      exact Address.isValid_of_ofText? hbytes
    · cases h

def Layer.Addressed (l : Layer) : Prop :=
  l.Within (fun a => Address.isValid a = true) (fun a => Address.isValid a = true)

namespace Journal

variable {j : Journal} {s storage : Storage} {log : List LoggedEvent} {stored : Bytes}

theorem replayEntry_eq {e : JournalEntry} (hread : Codec.decodeEntry stored = .ok e)
    (happly : s.apply e.delta = .ok storage) :
    replayEntry (s, log) stored = .ok (storage, log ++ e.events) := by
  refine Codec.bind_eq_ok.2 ⟨e, hread, ?_⟩
  simp only [happly]
  rfl

theorem replay_append (h : j.replay = .ok (s, log)) (stored : Bytes) :
    replay (j ++ [stored]) = replayEntry (s, log) stored := by
  unfold replay at h ⊢
  rw [List.foldlM_append, h]
  show [stored].foldlM replayEntry (s, log) = _
  rw [List.foldlM_cons]
  cases replayEntry (s, log) stored <;> rfl

end Journal

namespace Machine

variable {m m' : Machine} {top : Layer} {terminations : List Address} {events : List Event}

/-- No text in the persisted state or in the log begins with a byte-order mark. -/
def unmarked (m : Machine) : Bool :=
  m.storage.persisted.delta.slots.all SlotWrite.unmarked && m.log.entries.all LoggedEvent.unmarked

/-- Everything a machine has persisted and logged is in its journal, and its
contracts have well-formed addresses. -/
structure Replayable (m : Machine) : Prop where
  idle : m.storage.layers = []
  replay : m.journal.replay = .ok (m.storage, m.log.entries)
  addressed : ∀ a, m.registry.find? a ≠ none → Address.isValid a = true

theorem Replayable.of_eq (h : m.Replayable) (hs : m'.storage = m.storage)
    (hj : m'.journal = m.journal) (hl : m'.log.entries = m.log.entries)
    (hr : m'.registry.contracts = m.registry.contracts) : m'.Replayable where
  idle := hs ▸ h.idle
  replay := by rw [hs, hj, hl]; exact h.replay
  addressed := by
    unfold Registry.find?
    rw [hr]
    exact h.addressed

/-! ## One commit -/

theorem journalled_wellFormed (within : top.Addressed)
    (hends : ∀ a ∈ terminations, Address.isValid a = true)
    (hevents : ∀ e ∈ events, Address.isValid e.address = true) (base : Nat) :
    JournalEntry.WellFormed ⟨{ top.delta with destroyed := terminations.eraseDups },
      EventLog.number base events⟩ where
  slots := by
    intro w hw
    obtain ⟨e, he, hw⟩ := List.mem_flatMap.1 hw
    obtain ⟨p, -, rfl⟩ := List.mem_map.1 hw
    exact (within.slots e he).1
  balances := by
    intro b hb
    obtain ⟨e, he, rfl⟩ := List.mem_map.1 hb
    exact within.balances e he
  destroyed := fun a ha => hends a (List.mem_eraseDups.1 ha)
  events := by
    intro v hv
    obtain ⟨i, hi, rfl⟩ := List.mem_mapIdx.1 hv
    exact ⟨hevents _ (List.getElem_mem hi), base + i, rfl⟩

/-- What a layer wrote for an account that was not destroyed is persisted. -/
theorem Commits.persisted_slot (commits : m.Commits top terminations events m') {w : SlotWrite}
    (hw : w ∈ top.delta.slots) (hlive : w.address ∉ terminations.eraseDups) :
    w ∈ m'.storage.persisted.delta.slots := by
  rw [Layer.mem_delta_slots] at hw ⊢
  rw [commits.storage, Layer.slot?_foldl_erase, if_neg hlive, Layer.slot?_merge, hw]
  rfl

/-- Replaying the entry of a commit does what the commit did. -/
theorem Commits.replay (commits : m.Commits top terminations events m') (replayable : m.Replayable)
    (within : top.Addressed) (hends : ∀ a ∈ terminations, Address.isValid a = true)
    (hevents : ∀ e ∈ events, Address.isValid e.address = true) (plain : m'.unmarked = true) :
    m'.journal.replay = .ok (m'.storage, m'.log.entries) := by
  obtain ⟨entry, hentry, hjournal⟩ := commits.journal
  obtain ⟨hslots, hlogged⟩ := Bool.and_eq_true_iff.1 plain
  rw [List.all_eq_true] at hslots hlogged
  have hread := Codec.decode_encodeEntry
    (journalled_wellFormed within hends hevents m.log.size) hentry
  have hsame : ∀ e ∈ EventLog.number m.log.size events, e.reread = id e := fun e he =>
    LoggedEvent.reread_of_unmarked (hlogged e (by rw [commits.log]; exact List.mem_append_right _ he))
  have hpersisted : m.storage.persisted.apply
      (Delta.reread { top.delta with destroyed := terminations.eraseDups }) =
        terminations.eraseDups.foldl Layer.erase (m.storage.persisted.merge top) := by
    rw [Layer.apply_reread, Layer.apply_delta _ _ fun e he => (within.slots e he).2]
    -- Only what survives the commit is known to come back, and nothing else is needed.
    exact fun w hw hlive =>
      SlotWrite.reread_of_unmarked (hslots w (commits.persisted_slot hw hlive))
  have happly : m.storage.apply
      (Delta.reread { top.delta with destroyed := terminations.eraseDups }) = .ok m'.storage := by
    unfold Storage.apply Storage.whenIdle
    rw [replayable.idle, commits.storage, ← hpersisted]
  rw [hjournal, Journal.replay_append replayable.replay, Journal.replayEntry_eq hread happly,
    commits.log]
  show Except.ok (m'.storage, m.log.entries ++
    (EventLog.number m.log.size events).map LoggedEvent.reread) = _
  rw [List.map_congr_left hsame, List.map_id]

theorem Commits.replayable (commits : m.Commits top terminations events m')
    (replayable : m.Replayable) (within : top.Addressed)
    (hends : ∀ a ∈ terminations, Address.isValid a = true)
    (hevents : ∀ e ∈ events, Address.isValid e.address = true) (plain : m'.unmarked = true) :
    m'.Replayable where
  idle := by rw [commits.storage]
  replay := commits.replay replayable within hends hevents plain
  addressed := by
    intro a ha
    rw [commits.registry, Registry.find?_foldl_retire] at ha
    split at ha
    · exact absurd rfl ha
    · exact replayable.addressed a ha

/-- A first frame names only well-formed addresses if its request does: everything else
that it reaches is live or was checked. -/
theorem addressed_of_run {r : Request} {meter : GasMeter} {t : Site} (idle : m.storage.layers = [])
    (live : ∀ a, m.registry.find? a ≠ none → Address.isValid a = true)
    (direct : r.storageAddress = r.codeAddress)
    (ran : Run (.frame m.environment r) (m.topSite (m.topFrame r meter)) none t)
    (storage : t.world.storage = ⟨m.storage.persisted, [top]⟩)
    (caller : Address.isValid r.caller = true) (target : Address.isValid r.storageAddress = true) :
    top.Addressed ∧ (∀ a ∈ t.frame.terminations, Address.isValid a = true) ∧
      ∀ e ∈ t.frame.pending, Address.isValid e.address = true := by
  have alive := m.topSite_alive meter direct
  have within := ran.within alive (fun _ => ⟨caller, target⟩)
    (fun a ha => ⟨live a ha, live a ha⟩) (fun _ ha => ha) (Storage.Within.of_idle idle).snapshot
  rw [storage] at within
  have grounded := ran.grounded alive .start
  exact ⟨within top List.mem_cons_self, fun a ha => live a (grounded.terminations a ha),
    fun e he => live e.address (grounded.pending e he)⟩

theorem Commits.replayable_of_run {r : Request} {meter : GasMeter} {t : Site}
    (commits : m.Commits top t.frame.terminations t.frame.pending m') (replayable : m.Replayable)
    (direct : r.storageAddress = r.codeAddress)
    (ran : Run (.frame m.environment r) (m.topSite (m.topFrame r meter)) none t)
    (storage : t.world.storage = ⟨m.storage.persisted, [top]⟩)
    (caller : Address.isValid r.caller = true) (target : Address.isValid r.storageAddress = true)
    (plain : m'.unmarked = true) : m'.Replayable := by
  obtain ⟨within, hends, hevents⟩ :=
    addressed_of_run replayable.idle replayable.addressed direct ran storage caller target
  exact commits.replayable replayable within hends hevents plain

end Machine

/-! ## Runs of the host -/

open Machine

theorem Operation.replayable_after {m : Machine} (h : m.Replayable) (op : Operation)
    (addressed : op.wellAddressed = true) (plain : (op.after m).unmarked = true) :
    (op.after m).Replayable := by
  have ends := op.ends h.idle
  generalize op.succeeds m = b at ends
  generalize op.after m = m' at ends plain ⊢
  cases ends with
  | failed => exact h.of_eq rfl rfl rfl rfl
  | undeployed _ spent => exact h.of_eq rfl rfl rfl spent.contracts
  | @deployed code args deployer value gas a c registry _ _ _ _ _ _ derived registered ran storage
      commits =>
    have hvalid := isValid_of_deriveAddress derived
    have registered' : { m with registry := registry }.Replayable := by
      refine ⟨h.idle, h.replay, fun b hb => ?_⟩
      rw [Registry.find?_register registered] at hb
      split at hb
      · next hba =>
        rw [hba]
        exact hvalid
      · exact h.addressed b hb
    exact (commits.replayable_of_run registered' rfl ran storage addressed hvalid plain).of_eq
      rfl rfl rfl rfl
  | called ran storage commits =>
    obtain ⟨hsender, htarget⟩ := Bool.and_eq_true_iff.1 addressed
    exact (commits.replayable_of_run h rfl ran storage hsender htarget plain).of_eq rfl rfl rfl rfl
  | funded commits =>
    exact commits.replayable h (Layer.Within.empty.setBalance addressed _)
      (fun _ ha => (nomatch ha)) (fun _ he => (nomatch he)) plain
  | @terminated a beneficiary top m' _ live swept commits =>
    obtain ⟨ha, hb⟩ := Bool.and_eq_true_iff.1 addressed
    have within : top.Addressed := by
      rcases swept with rfl | ⟨hne, n, rfl⟩
      · exact .empty
      · have hbeneficiary : Address.isValid beneficiary = true := by
          rcases Bool.or_eq_true_iff.1 hb with hb | hb
          · exact absurd (eq_of_beq hb) hne
          · exact hb
        exact (Layer.Within.empty.setBalance hbeneficiary _).setBalance ha _
    have hends : ∀ x ∈ [a], Address.isValid x = true := fun x hx => by
      rw [List.mem_singleton.1 hx]
      exact ha
    exact (commits.replayable h within hends (fun _ he => (nomatch he)) plain).of_eq rfl rfl rfl rfl
  | blockSet => exact h.of_eq rfl rfl rfl rfl

namespace Machine

theorem replayable_start (settings : Settings) (hash : Bytes → Bytes) :
    (start settings hash).Replayable where
  idle := rfl
  replay := rfl
  addressed := fun _ h => absurd rfl h

theorem replayable_perform (ops : List Operation) {m : Machine} (h : m.Replayable)
    (addressed : ∀ op ∈ ops, op.wellAddressed = true)
    (plain : ∀ n, (m.perform (ops.take n)).unmarked = true) : (m.perform ops).Replayable := by
  induction ops generalizing m with
  | nil => exact h
  | cons op rest ih =>
    have hstep := op.replayable_after h (addressed op List.mem_cons_self) (plain 1)
    exact ih hstep (fun o ho => addressed o (List.mem_cons_of_mem op ho)) fun n => plain (n + 1)

/-- What holds after each of the operations holds after any number of them. -/
theorem unmarked_take {m : Machine} {ops : List Operation}
    (h : ∀ n ∈ List.range (ops.length + 1), (m.perform (ops.take n)).unmarked = true) (n : Nat) :
    (m.perform (ops.take n)).unmarked = true := by
  rw [List.take_eq_take_min]
  exact h _ (List.mem_range.2 (by omega))

/-- Whatever a host has done to a fresh machine, replaying the journal succeeds and gives
the persisted state, with its root, and the log.  The host names well-formed
addresses, and no text that was persisted or logged on the way begins with a
byte-order mark. -/
theorem replay_journal (settings : Settings) (hash : Bytes → Bytes) (ops : List Operation)
    (addressed : ∀ op ∈ ops, op.wellAddressed = true)
    (plain : ∀ n, ((start settings hash).perform (ops.take n)).unmarked = true) :
    ∃ storage, ((start settings hash).perform ops).journal.replay =
        .ok (storage, ((start settings hash).perform ops).log.entries) ∧
      storage.dump = ((start settings hash).perform ops).storage.dump ∧
      ContractVM.stateRoot ((start settings hash).perform ops).hash storage.dump =
        ((start settings hash).perform ops).stateRoot :=
  ⟨_, (replayable_perform ops (replayable_start settings hash) addressed plain).replay, rfl, rfl⟩

namespace Bell

/-- A contract is deployed, rings and ends with what it was given. -/
def history : List Operation :=
  [deployment, .fund address 7, .call Address.zero address "ring" ∅ 0 none,
    .terminate address Address.zero]

def ended : Machine := (start .standard fun _ => digest).perform history

end Bell

open Bell in
theorem replay_journal_bell :
    ended.journal.length = 4 ∧ ended.log.size = 1 ∧
      ∃ storage, ended.journal.replay = .ok (storage, ended.log.entries) ∧
        storage.dump = ended.storage.dump ∧
        ContractVM.stateRoot ended.hash storage.dump = ended.stateRoot := by
  unfold ended
  have checked : ((start .standard fun _ => digest).perform history).journal.length = 4 ∧
      ((start .standard fun _ => digest).perform history).log.size = 1 ∧
      ∀ n ∈ List.range (history.length + 1),
        ((start .standard fun _ => digest).perform (history.take n)).unmarked = true := by
    decide +kernel
  obtain ⟨hlength, hsize, hfirst⟩ := checked
  exact ⟨hlength, hsize,
    replay_journal .standard (fun _ => digest) history (by decide +kernel) (unmarked_take hfirst)⟩

/-! ## A text that is not well-formed -/

namespace Etching

def etch : FunctionDef where
  name := "etch"
  visibility := .external
  mutability := .mutating
  params := [⟨"text", .string⟩]
  body := [.sstore (.const (.text "etched")) (.arg "text")]

def code : ContractCode where
  name := "Etching"
  functions := [etch]

/-- A contract is deployed and called, with the text of some units for it to keep. -/
def history (us : List Nat) : List Operation :=
  [.deploy code ∅ Address.zero 0 none,
    .call Address.zero Bell.address "etch" (Table.ofList [("text", .text (Text.ofUnits us))]) 0 none]

/-- The units of a surrogate without its partner. -/
def lone : List Nat := [0xD800]

def etched : Machine := (start .standard fun _ => Bell.digest).perform (history lone)

theorem addressed : ∀ op ∈ history lone, op.wellAddressed = true := by decide +kernel

theorem replayable_etched : etched.Replayable := by
  have plain : ∀ n ∈ List.range ((history lone).length + 1),
      ((start .standard fun _ => Bell.digest).perform ((history lone).take n)).unmarked = true := by
    decide +kernel
  exact replayable_perform _ (replayable_start _ _) addressed (unmarked_take plain)

theorem kept_etched :
    etched.storage.persisted.slot? Bell.address "etched" = some (.text (Text.ofUnits lone)) := by
  decide +kernel

end Etching

open Etching in
/-- A surrogate without its partner is written as U+FFFD, and what is replayed is a text of
other units. -/
theorem lone_surrogate_lost :
    (∀ op ∈ history lone, op.wellAddressed = true) ∧ lone.head? ≠ some 0xFEFF ∧
      (∀ s, Text.utf8OfUnits (Text.units s) = Text.utf8 s) ∧
      Text.utf8OfUnits lone = [0xEF, 0xBF, 0xBD] ∧
      ∃ storage log s, etched.journal.replay = .ok (storage, log) ∧
        storage.persisted.slot? Bell.address "etched" = some (.text s) ∧
        s = Text.ofUtf8 (Text.utf8OfUnits lone) ∧ Text.units s ≠ lone := by
  have unpaired : ¬ (Text.paired lone = true ∧ lone.head? ≠ some 0xFEFF) := by decide
  have small : ∀ u ∈ lone, u < 0x10000 := by decide
  have lost := mt (Text.units_reread_iff small).1 unpaired
  have hread : Text.ofUtf8 (Text.utf8OfUnits lone) = Text.ofUnits lone := by
    rw [Text.utf8OfUnits, Text.ofUtf8_utf8]
    exact Text.dropMark_of_unmarked (by decide)
  refine ⟨addressed, by decide, Text.utf8OfUnits_units, Text.utf8OfUnits_lone (by decide),
    _, _, _, replayable_etched.replay, kept_etched, hread.symm, ?_⟩
  rw [← hread]
  exact lost

end Machine

end ContractVM
