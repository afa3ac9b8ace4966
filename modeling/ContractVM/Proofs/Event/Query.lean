/-
What a query of the log finds.

A filter asks for events by address, by name and by the values of fields, and a query yields
those that it asks for as long as they mark the fields as indexed.  Before it starts, the filter
is checked against declarations, so this section is about what such a check tells of the events
in the log: if an event shows a declaration that indexes the fields asked for, it is not missed
(`EventFilter.matches_of_asks`).
-/
import ContractVM.Event.Query
import ContractVM.Proofs.Contract.Checked
import ContractVM.Proofs.Table
import Mathlib.Data.List.Nodup

namespace ContractVM

/-! ## Declarations -/

/-- The event shows the fields of the declaration, in order. -/
def Event.Shows (e : Event) (decl : EventDecl) : Prop :=
  e.fields.map (fun f => (f.name, f.indexed)) = decl.fields.map fun f => (f.name, f.isIndexed)

namespace EventDecl

/-- The first field of the name is indexed. -/
def Indexes (decl : EventDecl) (name : String) : Prop :=
  ∃ f, decl.fields.find? (·.name = name) = some f ∧ f.isIndexed = true

/-- Different fields have different names. -/
def Distinct (decl : EventDecl) : Prop := (decl.fields.map (·.name)).Nodup

/-- In a declaration with different names the first field of a name is the only one. -/
theorem Indexes.isIndexed {decl : EventDecl} {f : EventField} (distinct : decl.Distinct)
    (hf : f ∈ decl.fields) (h : decl.Indexes f.name) : f.isIndexed = true := by
  obtain ⟨g, hfind, hg⟩ := h
  have hname : g.name = f.name := by simpa using List.find?_some hfind
  have hgf : g = f := List.inj_on_of_nodup_map distinct (List.mem_of_find?_eq_some hfind) hf hname
  exact hgf ▸ hg

end EventDecl

namespace EventLog

variable {l : EventLog} {a b : Address} {event : String} {decl : EventDecl} {events : List EventDecl}

/-- What the contract at the address declares under the name. -/
def declared? (l : EventLog) (event : String) (a : Address) : Option EventDecl :=
  (l.declarations.get? event).bind (·.get? a)

theorem toEvent_of_number {base : Nat} {events : List Event} {e : LoggedEvent}
    (h : e ∈ number base events) : e.toEvent ∈ events := by
  obtain ⟨i, hi, rfl⟩ := List.mem_mapIdx.1 h
  exact List.getElem_mem hi

theorem declared?_declare_singleton : (l.declare a [decl]).declared? event b =
    if event = decl.name ∧ b = a then some decl else l.declared? event b := by
  show ((declareOne a l.declarations decl).get? event).bind _ = _
  unfold declareOne declared?
  rw [Table.get?_set]
  by_cases hevent : event = decl.name
  · subst hevent
    rw [if_pos rfl, Option.bind_some, Table.get?_set]
    by_cases hb : b = a
    · rw [if_pos hb, if_pos ⟨rfl, hb⟩]
    · rw [if_neg hb, if_neg fun h => hb h.2]
      cases l.declarations.get? decl.name <;> rfl
  · rw [if_neg hevent, if_neg fun h => hevent h.1]

/-- What others declare, or under other names, stays. -/
theorem declared?_declare_of_apart (h : b ≠ a ∨ ∀ d ∈ events, d.name ≠ event) :
    (l.declare a events).declared? event b = l.declared? event b := by
  induction events generalizing l with
  | nil => rfl
  | cons d rest ih =>
    show ((l.declare a [d]).declare a rest).declared? event b = _
    rw [ih (h.imp_right fun h e he => h e (List.mem_cons_of_mem d he)), declared?_declare_singleton]
    refine if_neg fun same => ?_
    rcases h with h | h
    · exact h same.2
    · exact h d List.mem_cons_self same.1.symm

theorem declared?_declare_of_mem (nodup : (events.map (·.name)).Nodup) (h : decl ∈ events) :
    (l.declare a events).declared? decl.name a = some decl := by
  induction events generalizing l with
  | nil => cases h
  | cons d rest ih =>
    rw [List.map_cons, List.nodup_cons] at nodup
    show ((l.declare a [d]).declare a rest).declared? decl.name a = _
    rcases List.mem_cons.1 h with rfl | h
    · have hrest : ∀ e ∈ rest, e.name ≠ decl.name := fun e he hname =>
        nodup.1 (List.mem_map.2 ⟨e, he, hname⟩)
      rw [declared?_declare_of_apart (.inr hrest), declared?_declare_singleton, if_pos ⟨rfl, rfl⟩]
    · exact ih nodup.2 h

end EventLog

/-! ## Filters -/

namespace EventFilter

variable {q : EventFilter} {e : Event} {decl : EventDecl} {l : EventLog}

/-- The filter asks for the event, however it marks its fields. -/
structure Asks (q : EventFilter) (e : Event) : Prop where
  address : q.address = "" ∨ e.address = q.address
  event : q.event = "" ∨ e.name = q.event
  fields : ∀ name value, q.fields.get? name = some value →
    ∃ f ∈ e.fields, f.name = name ∧ f.value = value

theorem matchesEvent_iff : q.matchesEvent e = true ↔
    (q.address = "" ∨ e.address = q.address) ∧ (q.event = "" ∨ e.name = q.event) ∧
      ∀ name value, q.fields.get? name = some value →
        ∃ f ∈ e.fields, f.indexed = true ∧ f.name = name ∧ f.value = value := by
  unfold matchesEvent
  simp only [Bool.and_eq_true, Bool.or_eq_true, decide_eq_true_eq, List.all_eq_true,
    List.any_eq_true, Prod.forall, Table.mem_entries_iff, and_assoc]

theorem asks_of_matches (h : q.matchesEvent e = true) : q.Asks e := by
  obtain ⟨address, event, fields⟩ := matchesEvent_iff.1 h
  refine ⟨address, event, fun name value hvalue => ?_⟩
  obtain ⟨f, hf, -, hname, hval⟩ := fields name value hvalue
  exact ⟨f, hf, hname, hval⟩

/-- An event is found that shows a declaration in which the fields asked for are indexed. -/
theorem matches_of_asks (asks : q.Asks e) (shows : e.Shows decl) (distinct : decl.Distinct)
    (indexes : ∀ name ∈ q.fields.keys, decl.Indexes name) : q.matchesEvent e = true := by
  refine matchesEvent_iff.2 ⟨asks.address, asks.event, fun name value hvalue => ?_⟩
  obtain ⟨f, hf, rfl, hval⟩ := asks.fields name value hvalue
  have hshown : (f.name, f.indexed) ∈ decl.fields.map fun f => (f.name, f.isIndexed) :=
    shows ▸ List.mem_map_of_mem hf
  obtain ⟨g, hg, hgf⟩ := List.mem_map.1 hshown
  obtain ⟨hname, hindexed⟩ := Prod.mk.inj hgf
  have hindexes := indexes f.name (Table.mem_keys_iff.2 ⟨value, hvalue⟩)
  rw [← hname] at hindexes
  exact ⟨f, hf, hindexed ▸ hindexes.isIndexed distinct hg, rfl, hval⟩

theorem checkAgainst_eq_ok {event : String} {names : List String} :
    checkAgainst event decl names = .ok () ↔ ∀ name ∈ names, decl.Indexes name := by
  induction names with
  | nil => exact ⟨fun _ _ h => absurd h List.not_mem_nil, fun _ => rfl⟩
  | cons name rest ih =>
    unfold checkAgainst
    rw [List.forall_mem_cons, ← ih]
    unfold EventDecl.Indexes
    cases decl.fields.find? (·.name = name) with
    | none => simp
    | some f => by_cases hf : f.isIndexed = true <;> simp [hf]

/-- What a filter that is accepted has been compared with. -/
theorem check_eq_ok (h : q.check l = .ok ()) : q.fields.keys = [] ∨
    ∃ decls, l.declarations.get? q.event = some decls ∧ q.event ≠ "" ∧
      ∀ decl ∈ q.relevant decls, ∀ name ∈ q.fields.keys, decl.Indexes name := by
  unfold check at h
  split at h
  · next hempty => exact .inl (List.isEmpty_iff.1 hempty)
  · split at h
    · cases h
    · next hevent =>
      split at h
      · cases h
      · next decls hdecls =>
        refine .inr ⟨decls, hdecls, hevent, fun decl hdecl => ?_⟩
        exact checkAgainst_eq_ok.1 (Contract.forM_eq_ok.1 h decl hdecl)

end EventFilter

/-! ## Reading -/

namespace EventCursor

variable {q : EventFilter} {l : EventLog}

/-- What a cursor yields in `n` steps, from a log that does not grow. -/
def drain (l : EventLog) : Nat → EventCursor → List LoggedEvent
  | 0, _ => []
  | n + 1, c =>
    match c.next l with
    | (some e, c') => e :: drain l n c'
    | (none, _) => []

/-- What a cursor has still to yield. -/
def remaining (l : EventLog) (c : EventCursor) : List LoggedEvent :=
  if c.finished then []
  else (l.entries.drop c.position).filter fun e => c.filter.matchesEvent e.toEvent

theorem scan_none {entries : List LoggedEvent} {n : Nat} (h : scan q entries n = none) :
    entries.filter (fun e => q.matchesEvent e.toEvent) = [] := by
  induction entries generalizing n with
  | nil => rfl
  | cons e rest ih =>
    unfold scan at h
    split at h
    · cases h
    · next hmatch => rw [List.filter_cons_of_neg (by exact hmatch), ih h]

theorem scan_some {entries : List LoggedEvent} {n k : Nat} {e : LoggedEvent}
    (h : scan q entries n = some (e, k)) : n ≤ k ∧
      entries.filter (fun e => q.matchesEvent e.toEvent) =
        e :: (entries.drop (k - n + 1)).filter fun e => q.matchesEvent e.toEvent := by
  induction entries generalizing n with
  | nil => cases h
  | cons f rest ih =>
    unfold scan at h
    split at h
    · next hmatch =>
      cases h
      refine ⟨Nat.le_refl k, ?_⟩
      rw [List.filter_cons_of_pos (by exact hmatch), Nat.sub_self, Nat.zero_add, List.drop_one,
        List.tail_cons]
    · next hmatch =>
      obtain ⟨hle, hrest⟩ := ih h
      refine ⟨by omega, ?_⟩
      rw [List.filter_cons_of_neg (by exact hmatch), hrest]
      have hk : k - n = k - (n + 1) + 1 := by omega
      rw [hk, List.drop_succ_cons]

/-- One step of a cursor yields the first of what remains, if anything does. -/
theorem remaining_next (c : EventCursor) :
    c.remaining l = match c.next l with
      | (some e, c') => e :: c'.remaining l
      | (none, _) => [] := by
  unfold next
  by_cases hfinished : c.finished = true
  · simp only [remaining, hfinished, if_true]
  · rw [if_neg hfinished]
    cases hscan : scan c.filter (l.entries.drop c.position) c.position with
    | none =>
      simp only [remaining, hfinished]
      exact scan_none hscan
    | some found =>
      obtain ⟨e, k⟩ := found
      obtain ⟨hle, hfilter⟩ := scan_some hscan
      have hposition : c.position + (k - c.position + 1) = k + 1 := by omega
      rw [List.drop_drop, hposition] at hfilter
      simp only [remaining, hfinished]
      exact hfilter

theorem drain_eq (n : Nat) (c : EventCursor) : c.drain l n = (c.remaining l).take n := by
  induction n generalizing c with
  | zero => rfl
  | succ n ih =>
    rw [remaining_next, drain]
    rcases hnext : c.next l with ⟨_ | e, c'⟩
    · rfl
    · simp only [List.take_succ_cons, ih c']

end EventCursor

/-- A query that is read to its end yields all matches, in the order of the log. -/
theorem EventLog.drain_query {l : EventLog} {q : EventFilter} {c : EventCursor}
    (h : l.query q = .ok c) : c.drain l l.size = l.matching q := by
  unfold query at h
  cases hcheck : q.check l with
  | error e =>
    rw [hcheck] at h
    cases h
  | ok _ =>
    rw [hcheck] at h
    cases h
    rw [EventCursor.drain_eq]
    exact List.take_of_length_le (List.length_filter_le ..)

end ContractVM
