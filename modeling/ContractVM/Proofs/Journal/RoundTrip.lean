/-
Which entries come back from the journal as they were written.

An entry whose addresses are well-formed and whose numbers are not negative is written,
unless it is too large, and read again.  A reader drops a byte-order mark in front of a text,
so an entry comes back unchanged if and only if none of its keys, values and names begins
with one (`comes_back`).
-/
import ContractVM.Proofs.Exec.Unsigned
import ContractVM.Proofs.Journal.Faults

namespace ContractVM

/-! ## Parts that come back unchanged -/

theorem map_eq_self_iff {α : Type} {f : α → α} {p : α → Bool} (h : ∀ a, f a = a ↔ p a = true)
    (l : List α) : l.map f = l ↔ l.all p = true := by
  induction l with
  | nil => exact ⟨fun _ => rfl, fun _ => rfl⟩
  | cons a rest ih =>
    rw [List.map_cons, List.cons.injEq, List.all_cons, Bool.and_eq_true, h, ih]

theorem Value.reread_eq_self_iff {v : Value} : v.reread = v ↔ v.unmarked = true := by
  cases v with
  | text s =>
    refine Iff.trans ?_ Text.dropMark_eq_self_iff
    exact ⟨Value.text.inj, congrArg Value.text⟩
  | int n => exact ⟨fun _ => rfl, fun _ => rfl⟩
  | bool b => exact ⟨fun _ => rfl, fun _ => rfl⟩

theorem SlotWrite.reread_eq_self_iff {w : SlotWrite} : w.reread = w ↔ w.unmarked = true := by
  refine ⟨fun h => ?_, reread_of_unmarked⟩
  exact Bool.and_eq_true_iff.2 ⟨Text.dropMark_eq_self_iff.1 (congrArg key h),
    Value.reread_eq_self_iff.1 (congrArg SlotWrite.value h)⟩

theorem LoggedField.reread_eq_self_iff {f : LoggedField} : f.reread = f ↔ f.unmarked = true := by
  refine ⟨fun h => ?_, reread_of_unmarked⟩
  exact Bool.and_eq_true_iff.2 ⟨Text.dropMark_eq_self_iff.1 (congrArg name h),
    Value.reread_eq_self_iff.1 (congrArg LoggedField.value h)⟩

theorem LoggedEvent.reread_eq_self_iff {e : LoggedEvent} : e.reread = e ↔ e.unmarked = true := by
  refine ⟨fun h => ?_, reread_of_unmarked⟩
  refine Bool.and_eq_true_iff.2 ⟨Text.dropMark_eq_self_iff.1 (congrArg (·.name) h), ?_⟩
  exact (map_eq_self_iff (fun _ => LoggedField.reread_eq_self_iff) e.fields).1
    (congrArg (·.fields) h)

namespace JournalEntry

/-- No key, value or name of the entry begins with a byte-order mark. -/
def unmarked (e : JournalEntry) : Bool :=
  e.delta.slots.all SlotWrite.unmarked && e.events.all LoggedEvent.unmarked

theorem reread_eq_self_iff {e : JournalEntry} : e.reread = e ↔ e.unmarked = true := by
  have hslots := map_eq_self_iff (fun _ => SlotWrite.reread_eq_self_iff) e.delta.slots
  have hevents := map_eq_self_iff (fun _ => LoggedEvent.reread_eq_self_iff) e.events
  unfold unmarked
  rw [Bool.and_eq_true, ← hslots, ← hevents]
  refine ⟨fun h => ⟨congrArg (·.delta.slots) h, congrArg (·.events) h⟩, fun ⟨hs, he⟩ => ?_⟩
  unfold reread Delta.reread
  rw [hs, he]

/-! ## Entries that can be written -/

/-- The addresses of an entry are well-formed, none of its numbers is negative, and the places
of its events in the log are exact. -/
structure Regular (e : JournalEntry) : Prop where
  slots : ∀ w ∈ e.delta.slots, Address.isValid w.address = true ∧ w.value.unsigned = true
  balances : ∀ b ∈ e.delta.balances, Address.isValid b.address = true ∧ 0 ≤ b.balance
  destroyed : ∀ a ∈ e.delta.destroyed, Address.isValid a = true
  events : ∀ v ∈ e.events, Address.isValid v.address = true ∧
    (∃ n : Nat, n < 2 ^ 53 ∧ v.logIndex = .ofNat n) ∧ ∀ f ∈ v.fields, f.value.unsigned = true

variable {e : JournalEntry}

theorem Regular.place (h : e.Regular) {v : LoggedEvent} (hv : v ∈ e.events) :
    ∃ n : Nat, v.logIndex = .nearest n := by
  obtain ⟨n, hsafe, hplace⟩ := (h.events v hv).2.1
  exact ⟨n, hplace.trans (Number.nearest_of_le (Nat.le_of_lt hsafe)).symm⟩

theorem Regular.wellFormed (h : e.Regular) : e.WellFormed where
  slots := fun w hw => (h.slots w hw).1
  balances := fun b hb => (h.balances b hb).1
  destroyed := h.destroyed
  events := fun v hv => ⟨(h.events v hv).1, h.place hv⟩

theorem valueItem_unsigned {P : Fault → Prop} {v : Value} (h : v.unsigned = true) :
    FailsOnly P (Codec.valueItem v) :=
  Codec.valueItem_nonneg fun _ hn => Value.unsigned_int.1 (hn ▸ h)

theorem Regular.writable (h : e.Regular) : e.Writable Fault.Oversize where
  slots := fun w hw =>
    ⟨Codec.addressItem_valid (h.slots w hw).1, valueItem_unsigned (h.slots w hw).2⟩
  balances := fun b hb =>
    ⟨Codec.addressItem_valid (h.balances b hb).1, Codec.intItem_nonneg (h.balances b hb).2⟩
  destroyed := fun a ha => Codec.addressItem_valid (h.destroyed a ha)
  events := by
    intro v hv
    obtain ⟨n, hplace⟩ := h.place hv
    refine ⟨Codec.addressItem_valid (h.events v hv).1, ?_, fun f hf =>
      valueItem_unsigned ((h.events v hv).2.2 f hf)⟩
    rw [hplace]
    exact Codec.indexItem_fails n

/-- An entry is written, unless it is too large, and read with its texts unmarked: it comes
back as it was exactly if no text of it begins with a byte-order mark. -/
theorem comes_back (e : JournalEntry) (h : e.Regular) :
    (∃ f, Codec.encodeEntry e = .error f ∧ f.Oversize) ∨
      ∃ b, Codec.encodeEntry e = .ok b ∧ Codec.decodeEntry b = .ok e.reread ∧
        (Codec.decodeEntry b = .ok e ↔ e.unmarked = true) := by
  cases hencode : Codec.encodeEntry e with
  | error f =>
    exact .inl ⟨f, rfl, Codec.encodeEntry_fails h.writable (fun _ hf => hf) f hencode⟩
  | ok b =>
    have hdecode := Codec.decode_encodeEntry h.wellFormed hencode
    refine .inr ⟨b, rfl, hdecode, ?_⟩
    rw [hdecode, ← reread_eq_self_iff, Except.ok.injEq]

/-! ## A key with a byte-order mark -/

namespace Marked

/-- One slot with a mark in front of its key, and an event. -/
def entry : JournalEntry where
  delta := ⟨[⟨Address.zero, "\uFEFFk", .text "é"⟩], [⟨Address.zero, 300⟩], [Address.zero]⟩
  events := [⟨⟨Address.zero, "Rung", [⟨"by", .int 0, true⟩]⟩, .ofNat 0⟩]

theorem regular : entry.Regular where
  slots := by decide
  balances := by decide
  destroyed := by decide
  events := by
    intro v hv
    rw [List.mem_singleton.1 hv]
    exact ⟨by decide, ⟨0, by decide, rfl⟩, by decide⟩

theorem written : ∃ b, Codec.encodeEntry entry = .ok b := by
  have isOk : (Codec.encodeEntry entry).isOk = true := by decide +kernel
  cases hencode : Codec.encodeEntry entry with
  | ok b => exact ⟨b, rfl⟩
  | error f =>
    rw [hencode] at isOk
    cases isOk

end Marked

open Marked in
theorem comes_back_marked : entry.Regular ∧ ∃ b, Codec.encodeEntry entry = .ok b ∧
    Codec.decodeEntry b = .ok entry.reread ∧ entry.unmarked = false := by
  obtain ⟨b, hb⟩ := written
  rcases comes_back entry regular with ⟨f, hf, -⟩ | ⟨b, hb, hread, -⟩
  · rw [hb] at hf
    cases hf
  · exact ⟨regular, b, hb, hread, by decide⟩

open Marked in
/-- The mark is the first character of the key, and the reader does not give it back. -/
theorem mark_lost : entry.Regular ∧
    (Codec.encodeEntry entry >>= Codec.decodeEntry).toOption =
      some { entry with delta.slots := [⟨Address.zero, "k", .text "é"⟩] } ∧
    { entry with delta.slots := [⟨Address.zero, "k", .text "é"⟩] } ≠ entry := by
  obtain ⟨b, hb⟩ := written
  have hread := Codec.decode_encodeEntry regular.wellFormed hb
  refine ⟨regular, ?_, by decide⟩
  rw [hb]
  show (Codec.decodeEntry b).toOption = _
  rw [hread]
  decide

end JournalEntry

end ContractVM
