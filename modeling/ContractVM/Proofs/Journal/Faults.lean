/-
What can go wrong when an entry is written.

An entry is written part by part, so its faults are those of its parts
(`encodeEntry_fails`).  An address that is no hexadecimal has no bytes, and neither has a
negative integer.  Apart from these there are only entries that are larger than
any host could hold: of more bytes than a header can count, or for a place in the log
that rounds to infinity.
-/
import ContractVM.Event.Log
import ContractVM.Proofs.Journal.Codec

namespace ContractVM

open Codec

/-! ## Computations that may fail -/

/-- A computation whose faults have `P`. -/
def FailsOnly {α : Type} (P : Fault → Prop) (r : Except Fault α) : Prop := ∀ f, r = .error f → P f

namespace FailsOnly

variable {α β : Type} {P Q : Fault → Prop} {r : Except Fault α}

theorem of_ok {a : α} (h : r = .ok a) : FailsOnly P r := by
  intro f hf
  rw [h] at hf
  cases hf

theorem ok (a : α) : FailsOnly P (.ok a) := of_ok rfl

theorem mono (h : FailsOnly P r) (hpq : ∀ f, P f → Q f) : FailsOnly Q r :=
  fun f hf => hpq f (h f hf)

theorem bind {k : α → Except Fault β} (h : FailsOnly P r) (hk : ∀ a, FailsOnly P (k a)) :
    FailsOnly P (r >>= k) := by
  cases r with
  | error f =>
    intro g hg
    cases hg
    exact h f rfl
  | ok a => exact hk a

theorem mapM {f : α → Except Fault β} {l : List α} (h : ∀ a ∈ l, FailsOnly P (f a)) :
    FailsOnly P (l.mapM f) := by
  induction l with
  | nil => exact ok _
  | cons a rest ih =>
    rw [List.mapM_cons]
    have hrest := ih fun b hb => h b (List.mem_cons_of_mem a hb)
    exact (h a List.mem_cons_self).bind fun _ => hrest.bind fun _ => ok _

end FailsOnly

/-! ## Faults of writing -/

/-- The fault of an entry that is too large to be written. -/
inductive Fault.Oversize : Fault → Prop
  | tooLong {n : Nat} (h : 2 ^ 64 ≤ n) : Oversize (.rlp (.tooLong n))
  /-- The places of the log have run out of numbers. -/
  | unplaced : Oversize (.notIntegral (.infinite false))

/-- A fault that writing an entry can end with. -/
def Fault.Unwritten (f : Fault) : Prop := (∃ e, f = .hex e) ∨ f.Oversize

theorem Fault.Unwritten.foreign {f : Fault} (h : f.Unwritten) (c : Cause) (p : Bool) :
    f ≠ .raised c p := by
  rintro rfl
  rcases h with ⟨e, h⟩ | h
  · cases h
  · cases h

/-- The parts of an entry can be written but for faults that have `P`. -/
structure JournalEntry.Writable (P : Fault → Prop) (e : JournalEntry) : Prop where
  slots : ∀ w ∈ e.delta.slots,
    FailsOnly P (addressItem w.address) ∧ FailsOnly P (valueItem w.value)
  balances : ∀ b ∈ e.delta.balances,
    FailsOnly P (addressItem b.address) ∧ FailsOnly P (intItem b.balance)
  destroyed : ∀ a ∈ e.delta.destroyed, FailsOnly P (addressItem a)
  events : ∀ v ∈ e.events, FailsOnly P (addressItem v.address) ∧
    FailsOnly P (indexItem v.logIndex) ∧ ∀ f ∈ v.fields, FailsOnly P (valueItem f.value)

namespace Codec

variable {P : Fault → Prop} {e : JournalEntry}

theorem packed_fails (i : Rlp.Item) : FailsOnly Fault.Oversize (packed i) := by
  unfold packed Rlp.pack
  split
  · exact .ok _
  · next hp =>
    split at hp
    · cases hp
    · next hlength =>
      cases hp
      intro f hf
      cases hf
      exact .tooLong (Nat.not_lt.1 hlength)

theorem encodeEntry_fails (h : e.Writable P) (large : ∀ f : Fault, f.Oversize → P f) :
    FailsOnly P (encodeEntry e) := by
  have hpacked (i : Rlp.Item) : FailsOnly P (packed i) := (packed_fails i).mono large
  have hdelta : FailsOnly P (encodeDelta e.delta) := by
    refine (FailsOnly.mapM fun w hw => ?_).bind fun _ => (FailsOnly.mapM fun b hb => ?_).bind
      fun _ => (FailsOnly.mapM h.destroyed).bind fun _ => hpacked _
    · exact (h.slots w hw).1.bind fun _ => (h.slots w hw).2.bind fun _ => .ok _
    · exact (h.balances b hb).1.bind fun _ => (h.balances b hb).2.bind fun _ => .ok _
  refine hdelta.bind fun _ => (FailsOnly.mapM fun v hv => ?_).bind fun _ => hpacked _
  obtain ⟨haddress, hindex, hfields⟩ := h.events v hv
  refine haddress.bind fun _ => hindex.bind fun _ => (FailsOnly.mapM fun f hf => ?_).bind
    fun _ => .ok _
  exact (hfields f hf).bind fun _ => .ok _

/-! ## Parts -/

theorem hexItem_fails (b : Except Text.HexError Bytes) : FailsOnly Fault.Unwritten (hexItem b) := by
  cases b with
  | ok b => exact .ok _
  | error e =>
    intro f hf
    cases hf
    exact .inl ⟨e, rfl⟩

theorem valueItem_fails (v : Value) : FailsOnly Fault.Unwritten (valueItem v) := by
  refine FailsOnly.bind ?_ fun _ => .ok _
  unfold valueParts
  cases v with
  | int n =>
    simp only
    cases Text.intBytes n with
    | ok b => exact .ok _
    | error e =>
      intro f hf
      cases hf
      exact .inl ⟨e, rfl⟩
  | bool b => exact .ok _
  | text s => exact .ok _

/-- The place of an event has a number, if there is one so large. -/
theorem indexItem_fails (n : Nat) : FailsOnly Fault.Oversize (indexItem (.nearest n)) := by
  rw [Number.nearest_natCast]
  split
  · intro f hf
    cases hf
    exact .unplaced
  · refine .of_ok (a := .bytes (Text.bigEndian (Number.rounded n))) ?_
    unfold indexItem
    rw [Number.toInt?_ofNat]
    rfl

theorem addressItem_valid {a : Address} (valid : Address.isValid a = true) :
    FailsOnly P (addressItem a) := by
  obtain ⟨b, hb, -⟩ := Address.ofBytes?_toBytes valid
  refine .of_ok (a := .bytes b) ?_
  unfold addressItem
  rw [hb]
  rfl

theorem intItem_nonneg {n : Int} (h : 0 ≤ n) : FailsOnly P (intItem n) := by
  obtain ⟨k, rfl⟩ := Int.eq_ofNat_of_zero_le h
  exact .ok _

theorem valueItem_nonneg {v : Value} (h : ∀ n, v = .int n → 0 ≤ n) : FailsOnly P (valueItem v) := by
  cases v with
  | int n =>
    obtain ⟨k, rfl⟩ := Int.eq_ofNat_of_zero_le (h n rfl)
    exact .ok _
  | bool b => exact .ok _
  | text s => exact .ok _

theorem exists_place {base : Nat} {events : List Event} {v : LoggedEvent}
    (h : v ∈ EventLog.number base events) :
    ∃ e ∈ events, v.address = e.address ∧ v.fields = e.fields ∧ ∃ n : Nat, v.logIndex = .nearest n := by
  obtain ⟨i, hi, rfl⟩ := List.mem_mapIdx.1 h
  exact ⟨_, List.getElem_mem hi, rfl, rfl, base + i, rfl⟩

/-- Whatever is in it, an entry of numbered events fails with nothing else. -/
theorem encodeEntry_unwritten (d : Delta) (base : Nat) (events : List Event) :
    FailsOnly Fault.Unwritten (encodeEntry ⟨d, EventLog.number base events⟩) := by
  refine encodeEntry_fails ?_ fun f hf => .inr hf
  refine ⟨fun w _ => ⟨hexItem_fails _, valueItem_fails _⟩,
    fun b _ => ⟨hexItem_fails _, hexItem_fails _⟩, fun a _ => hexItem_fails _, fun v hv => ?_⟩
  obtain ⟨e, -, -, -, n, hn⟩ := exists_place hv
  rw [hn]
  exact ⟨hexItem_fails _, (indexItem_fails n).mono fun f hf => .inr hf, fun f _ => valueItem_fails _⟩

end Codec

end ContractVM
