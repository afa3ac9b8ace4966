/-
What is read back from a journal entry.

Everything but texts comes back as it was written, and a text without a
byte-order mark in front: `reread` gives the parts of an entry that way.  Each
part has one lemma that its item is read back so, and `decode_encodeEntry` joins
them.  Addresses have to be well-formed and places in the log have to be natural
numbers; that amounts are not negative follows from their having been written.
-/
import ContractVM.Journal.Codec
import ContractVM.Proofs.Number
import ContractVM.Proofs.Rlp
import ContractVM.Proofs.Text.Utf8

namespace ContractVM

open Text (utf8 ofUtf8 dropMark natOfBytes bigEndian)
open Rlp (Item)

/-! ## An entry as it comes back -/

def Value.reread : Value → Value
  | .text s => .text (dropMark s)
  | v => v

def SlotWrite.reread (w : SlotWrite) : SlotWrite := ⟨w.address, dropMark w.key, w.value.reread⟩

def LoggedField.reread (f : LoggedField) : LoggedField :=
  ⟨dropMark f.name, f.value.reread, f.indexed⟩

def LoggedEvent.reread (e : LoggedEvent) : LoggedEvent :=
  { e with name := dropMark e.name, fields := e.fields.map LoggedField.reread }

def Delta.reread (d : Delta) : Delta := { d with slots := d.slots.map SlotWrite.reread }

namespace JournalEntry

def reread (e : JournalEntry) : JournalEntry := ⟨e.delta.reread, e.events.map LoggedEvent.reread⟩

/-- The addresses of an entry are well-formed, and its events have places in a log. -/
structure WellFormed (e : JournalEntry) : Prop where
  slots : ∀ w ∈ e.delta.slots, Address.isValid w.address = true
  balances : ∀ b ∈ e.delta.balances, Address.isValid b.address = true
  destroyed : ∀ a ∈ e.delta.destroyed, Address.isValid a = true
  events : ∀ v ∈ e.events, Address.isValid v.address = true ∧ ∃ n : Nat, v.logIndex = .nearest n

end JournalEntry

/-! ## Entries that come back unchanged -/

def Value.unmarked : Value → Bool
  | .text s => Text.unmarked s
  | _ => true

def SlotWrite.unmarked (w : SlotWrite) : Bool := Text.unmarked w.key && w.value.unmarked

def LoggedField.unmarked (f : LoggedField) : Bool := Text.unmarked f.name && f.value.unmarked

def LoggedEvent.unmarked (e : LoggedEvent) : Bool :=
  Text.unmarked e.name && e.fields.all LoggedField.unmarked

theorem Value.reread_of_unmarked {v : Value} (h : v.unmarked = true) : v.reread = v := by
  cases v with
  | text s => exact congrArg Value.text (Text.dropMark_of_unmarked h)
  | int n => rfl
  | bool b => rfl

theorem SlotWrite.reread_of_unmarked {w : SlotWrite} (h : w.unmarked = true) : w.reread = w := by
  obtain ⟨hkey, hvalue⟩ := Bool.and_eq_true_iff.1 h
  rw [reread, Text.dropMark_of_unmarked hkey, Value.reread_of_unmarked hvalue]

theorem LoggedField.reread_of_unmarked {f : LoggedField} (h : f.unmarked = true) : f.reread = f := by
  obtain ⟨hname, hvalue⟩ := Bool.and_eq_true_iff.1 h
  rw [reread, Text.dropMark_of_unmarked hname, Value.reread_of_unmarked hvalue]

theorem LoggedEvent.reread_of_unmarked {e : LoggedEvent} (h : e.unmarked = true) : e.reread = e := by
  obtain ⟨hname, hfields⟩ := Bool.and_eq_true_iff.1 h
  have hsame : ∀ f ∈ e.fields, f.reread = id f := fun f hf =>
    LoggedField.reread_of_unmarked (List.all_eq_true.1 hfields f hf)
  rw [reread, Text.dropMark_of_unmarked hname, List.map_congr_left hsame, List.map_id]

namespace Codec

variable {α β γ ε : Type}

theorem bind_eq_ok {r : Except ε α} {k : α → Except ε β} {b : β} :
    r >>= k = .ok b ↔ ∃ a, r = .ok a ∧ k a = .ok b := by
  cases r with
  | error e => exact ⟨fun h => (nomatch h), fun ⟨_, h, _⟩ => (nomatch h)⟩
  | ok a => exact ⟨fun h => ⟨a, rfl, h⟩, fun ⟨_, ha, h⟩ => Except.ok.inj ha ▸ h⟩

theorem mapM_mapM {write : α → Except ε β} {read : β → Except ε γ} {l : List α}
    {items : List β} (back : α → γ) (each : ∀ a ∈ l, ∀ i, write a = .ok i → read i = .ok (back a))
    (h : l.mapM write = .ok items) : items.mapM read = .ok (l.map back) := by
  induction l generalizing items with
  | nil =>
    cases h
    rfl
  | cons a rest ih =>
    rw [List.mapM_cons, bind_eq_ok] at h
    obtain ⟨i, hi, h⟩ := h
    obtain ⟨is, his, h⟩ := bind_eq_ok.1 h
    cases h
    rw [List.mapM_cons, each a List.mem_cons_self i hi]
    show (is.mapM read >>= _) = _
    rw [ih (fun b hb => each b (List.mem_cons_of_mem _ hb)) his]
    rfl

/-! ## Bytes -/

theorem hexItem_eq_ok {r : Except Text.HexError Bytes} {i : Item} (h : hexItem r = .ok i) :
    ∃ b, r = .ok b ∧ i = .bytes b := by
  unfold hexItem at h
  split at h
  · cases h
    exact ⟨_, rfl, rfl⟩
  · cases h

theorem addressItem_eq_ok {a : Address} {i : Item} (valid : Address.isValid a = true)
    (h : addressItem a = .ok i) : ∃ b, i = .bytes b ∧ readAddress b = .ok a := by
  obtain ⟨b, hb, rfl⟩ := hexItem_eq_ok h
  obtain ⟨b', hb', hread⟩ := Address.ofBytes?_toBytes valid
  rw [hb] at hb'
  cases hb'
  refine ⟨b, rfl, ?_⟩
  unfold readAddress
  rw [hread]

theorem intBytes_eq_ok {n : Int} {b : Bytes} (h : Text.intBytes n = .ok b) :
    (natOfBytes b : Int) = n := by
  cases n with
  | ofNat k =>
    cases h
    rw [Text.natOfBytes_bigEndian]
    rfl
  | negSucc k => cases h

theorem intItem_eq_ok {n : Int} {i : Item} (h : intItem n = .ok i) :
    ∃ b, i = .bytes b ∧ (natOfBytes b : Int) = n := by
  obtain ⟨b, hb, rfl⟩ := hexItem_eq_ok h
  exact ⟨b, rfl, intBytes_eq_ok hb⟩

theorem readBool_boolBytes (b : Bool) : readBool (boolBytes b) = b := by
  cases b <;> rfl

theorem readItem_packed {i : Item} {b : Bytes} (h : packed i = .ok b) : readItem b = .ok i := by
  unfold packed at h
  split at h
  · next hp =>
    cases h
    unfold readItem
    rw [Rlp.decode_pack hp]
  · cases h

theorem indexItem_eq_ok {n : Nat} {i : Item} (h : indexItem (.nearest n) = .ok i) :
    ∃ b, i = .bytes b ∧ Number.nearest (natOfBytes b : Nat) = .nearest n := by
  unfold indexItem at h
  split at h
  · next k hk =>
    obtain ⟨m, rfl, hm⟩ := Number.nearest_toInt hk
    obtain ⟨b, rfl, hb⟩ := intItem_eq_ok h
    exact ⟨b, rfl, by rw [Int.ofNat_inj.1 hb, hm]⟩
  · cases h

/-! ## Values -/

theorem valueItem_eq_ok {v : Value} {i : Item} (h : valueItem v = .ok i) :
    ∃ parts, i = .list parts ∧ readValue parts = .ok v.reread := by
  obtain ⟨⟨tag, payload⟩, hparts, h⟩ := bind_eq_ok.1 h
  cases h
  refine ⟨_, rfl, ?_⟩
  have tag_eq : ∀ s : String, Text.unmarked s = true → ofUtf8 (utf8 s) = s := fun s hs => by
    rw [Text.ofUtf8_utf8, Text.dropMark_of_unmarked hs]
  refine bind_eq_ok.2 ⟨tag, rfl, ?_⟩
  cases v with
  | int n =>
    unfold valueParts at hparts
    cases hn : Text.intBytes n with
    | error e => simp only [hn, reduceCtorEq] at hparts
    | ok b =>
      simp only [hn] at hparts
      cases hparts
      rw [tag_eq "u" rfl]
      exact congrArg (fun k => Except.ok (Value.int k)) (intBytes_eq_ok hn)
  | bool b =>
    cases hparts
    rw [tag_eq "b" rfl]
    exact congrArg (fun k => Except.ok (Value.bool k)) (readBool_boolBytes b)
  | text s =>
    cases hparts
    rw [tag_eq "s" rfl]
    exact congrArg (fun k => Except.ok (Value.text k)) (Text.ofUtf8_utf8 s)

/-! ## Deltas -/

theorem read_slotItem {w : SlotWrite} {i : Item} (valid : Address.isValid w.address = true)
    (h : slotItem w = .ok i) : readSlot i = .ok w.reread := by
  obtain ⟨ai, hai, h⟩ := bind_eq_ok.1 h
  obtain ⟨vi, hvi, h⟩ := bind_eq_ok.1 h
  cases h
  obtain ⟨ab, rfl, hread⟩ := addressItem_eq_ok valid hai
  obtain ⟨parts, rfl, hvalue⟩ := valueItem_eq_ok hvi
  show (readAddress ab >>= fun a => readValue parts >>= fun v =>
    pure (SlotWrite.mk a (ofUtf8 (utf8 w.key)) v)) = _
  rw [hread, hvalue, Text.ofUtf8_utf8]
  rfl

theorem read_balanceItem {b : BalanceWrite} {i : Item} (valid : Address.isValid b.address = true)
    (h : balanceItem b = .ok i) : readBalance i = .ok b := by
  obtain ⟨ai, hai, h⟩ := bind_eq_ok.1 h
  obtain ⟨ni, hni, h⟩ := bind_eq_ok.1 h
  cases h
  obtain ⟨ab, rfl, hread⟩ := addressItem_eq_ok valid hai
  obtain ⟨nb, rfl, hn⟩ := intItem_eq_ok hni
  show (readAddress ab >>= fun a => pure (BalanceWrite.mk a (natOfBytes nb))) = _
  rw [hread, hn]
  rfl

theorem read_destroyed {a : Address} {i : Item} (valid : Address.isValid a = true)
    (h : addressItem a = .ok i) : readDestroyed i = .ok a := by
  obtain ⟨ab, rfl, hread⟩ := addressItem_eq_ok valid h
  exact hread

theorem decode_encodeDelta {d : Delta} {b : Bytes}
    (slots : ∀ w ∈ d.slots, Address.isValid w.address = true)
    (balances : ∀ b ∈ d.balances, Address.isValid b.address = true)
    (destroyed : ∀ a ∈ d.destroyed, Address.isValid a = true) (h : encodeDelta d = .ok b) :
    decodeDelta b = .ok d.reread := by
  obtain ⟨si, hsi, h⟩ := bind_eq_ok.1 h
  obtain ⟨bi, hbi, h⟩ := bind_eq_ok.1 h
  obtain ⟨di, hdi, h⟩ := bind_eq_ok.1 h
  have hslots := mapM_mapM _ (fun w hw i => read_slotItem (slots w hw)) hsi
  have hbalances := mapM_mapM id (fun b hb i => read_balanceItem (balances b hb)) hbi
  have hdestroyed := mapM_mapM id (fun a ha i => read_destroyed (destroyed a ha)) hdi
  rw [List.map_id] at hbalances hdestroyed
  unfold decodeDelta
  rw [readItem_packed h]
  show (si.mapM readSlot >>= fun s => bi.mapM readBalance >>= fun b =>
    di.mapM readDestroyed >>= fun a => pure (Delta.mk s b a)) = _
  rw [hslots, hbalances, hdestroyed]
  rfl

/-! ## Events -/

theorem read_fieldItem {f : LoggedField} {i : Item} (h : fieldItem f = .ok i) :
    readField i = .ok f.reread := by
  obtain ⟨vi, hvi, h⟩ := bind_eq_ok.1 h
  cases h
  obtain ⟨parts, rfl, hvalue⟩ := valueItem_eq_ok hvi
  show (readValue parts >>= fun v =>
    pure (LoggedField.mk (ofUtf8 (utf8 f.name)) v (readBool (boolBytes f.indexed)))) = _
  rw [hvalue, Text.ofUtf8_utf8, readBool_boolBytes]
  rfl

theorem read_eventItem {e : LoggedEvent} {i : Item} (valid : Address.isValid e.address = true)
    (placed : ∃ n : Nat, e.logIndex = .nearest n) (h : eventItem e = .ok i) :
    readEvent i = .ok e.reread := by
  obtain ⟨ai, hai, h⟩ := bind_eq_ok.1 h
  obtain ⟨ni, hni, h⟩ := bind_eq_ok.1 h
  obtain ⟨fi, hfi, h⟩ := bind_eq_ok.1 h
  cases h
  obtain ⟨n, hn⟩ := placed
  obtain ⟨ab, rfl, hread⟩ := addressItem_eq_ok valid hai
  obtain ⟨nb, rfl, hindex⟩ := indexItem_eq_ok (hn ▸ hni)
  have hfields := mapM_mapM _ (fun f _ i => read_fieldItem) hfi
  show (readAddress ab >>= fun a => fi.mapM readField >>= fun fields =>
    pure (LoggedEvent.mk ⟨a, ofUtf8 (utf8 e.name), fields⟩ (.nearest (natOfBytes nb)))) = _
  rw [hread, hfields, Text.ofUtf8_utf8, hindex, ← hn]
  rfl

/-- An entry comes back from its bytes, with its texts unmarked. -/
theorem decode_encodeEntry {e : JournalEntry} {b : Bytes} (formed : e.WellFormed)
    (h : encodeEntry e = .ok b) : decodeEntry b = .ok e.reread := by
  obtain ⟨db, hdb, h⟩ := bind_eq_ok.1 h
  obtain ⟨ei, hei, h⟩ := bind_eq_ok.1 h
  have hdelta := decode_encodeDelta formed.slots formed.balances formed.destroyed hdb
  have hevents := mapM_mapM _
    (fun v hv i => read_eventItem (formed.events v hv).1 (formed.events v hv).2) hei
  unfold decodeEntry
  rw [readItem_packed h]
  show (decodeDelta db >>= fun d => ei.mapM readEvent >>= fun events =>
    pure (JournalEntry.mk d events)) = _
  rw [hdelta, hevents]
  rfl

end Codec
end ContractVM
