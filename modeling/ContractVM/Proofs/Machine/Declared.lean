/-
The log and what contracts declare.

A contract has declared its events from the moment it is deployed, and nobody else ever gets
its address, so a declaration is there to stay.  Code logs only what its own contract declares,
whatever address it acts for, and so every event in the log shows a declaration that is known
(`EventLog.Informed`).  It need not be that of the address of the event: a proxy logs what the
code declares that it calls.  A query by address that consults the declaration of the proxy
alone can therefore miss an event that it asks for (`query_complete`).
-/
import ContractVM.Proofs.Contract.Flatten
import ContractVM.Proofs.Machine.Charter
import ContractVM.Proofs.Machine.Tenancy

namespace ContractVM

/-! ## Declarations of a contract -/

namespace Contract

variable {a : Address} {code : ContractCode} {c : Contract}

/-- Declarations stand under their own names. -/
theorem event_name (h : flatten a code = .ok c) {event : String} {decl : EventDecl}
    (hdecl : c.events.get? event = some decl) : decl.name = event := by
  rw [(resolves_of_flatten h).events] at hdecl
  exact of_decide_eq_true (List.mem_filter.1 (List.mem_of_getLast? hdecl)).2

theorem nodup_events (h : flatten a code = .ok c) : (c.events.values.map (·.name)).Nodup := by
  have hnames : c.events.values.map (·.name) = c.events.keys := by
    unfold Table.values Table.keys
    rw [List.map_map]
    exact List.map_congr_left fun e he => event_name h (Table.mem_entries_iff.1 he)
  rw [hnames]
  exact c.events.nodup

end Contract

/-! ## What the log knows -/

/-- Declarations of all live contracts are known, every event in the log shows one that is, and
only addresses that are in use or were have any. -/
structure EventLog.Informed (l : EventLog) (r : Registry) : Prop where
  live : r.Every fun a c => ∀ event decl, c.events.get? event = some decl →
    l.declared? event a = some decl
  shown : ∀ e ∈ l.entries, ∃ a decl, l.declared? e.name a = some decl ∧ e.Shows decl
  used : ∀ event a decl, l.declared? event a = some decl → r.Used a

/-- Whatever code of live contracts is allowed to log. -/
def Charter.ofLive (r : Registry) : Charter where
  logs := fun e => ∃ a c, r.find? a = some c ∧ c.Logs e
  unset := fun _ _ => True

theorem Registry.meets_ofLive {r : Registry} (h : r.Every fun a c => ∃ code, Contract.flatten a code = .ok c) :
    r.Every fun _ c => c.Meets (.ofLive r) := by
  intro a c hc
  obtain ⟨code, hflatten⟩ := h a c hc
  exact ⟨Contract.check_of_flatten hflatten, fun e he => ⟨a, c, hc, he⟩, fun _ _ _ => trivial⟩

namespace Machine

variable {m m' : Machine}

/-- The contracts of a machine were flattened at their addresses. -/
theorem Reachable.flattened (h : m.Reachable) :
    m.registry.Every fun a c => ∃ code, Contract.flatten a code = .ok c := by
  obtain ⟨settings, hash, ops, rfl⟩ := h
  have fresh : (start settings hash).Reachable := ⟨settings, hash, [], rfl⟩
  refine fresh.perform_keeps
    (P := fun m => m.registry.Every fun a c => ∃ code, Contract.flatten a code = .ok c)
    (fun _ _ h => nomatch h) fun op _ m reachable h => ?_
  exact op.every_after reachable.idle h fun code _ _ _ _ hflatten => ⟨code, hflatten⟩

/-- The trail of a machine is allowed when any field may be unset. -/
theorem Reachable.allowed {T : Charter} (h : m.Reachable) (unset : ∀ event field, T.unset event field) :
    m.trail.Allowed T := by
  obtain ⟨settings, hash, ops, rfl⟩ := h
  have hallowed := (perform_allowed (T := ⟨fun _ => True, fun _ _ => True⟩) settings hash ops
    fun _ _ _ _ _ _ hflatten =>
      ⟨Contract.check_of_flatten hflatten, fun _ _ => trivial, fun _ _ _ => trivial⟩).1
  exact hallowed.mono fun event field _ => unset event field

/-- A commit after which all is known that the code declares which logged. -/
theorem Commits.informed {top : Layer} {terminations : List Address} {events : List Event}
    {log : EventLog} (commits : m.Commits top terminations events m')
    (entries : log.entries = m'.log.entries)
    (live : m.registry.Every fun a c => ∀ event decl, c.events.get? event = some decl →
      log.declared? event a = some decl)
    (logged : ∀ e ∈ events, (Charter.ofLive m.registry).logs e)
    (shown : ∀ e ∈ m.log.entries, ∃ a decl, log.declared? e.name a = some decl ∧ e.Shows decl)
    (used : ∀ event a decl, log.declared? event a = some decl → m.registry.Used a) :
    log.Informed m'.registry where
  live := commits.every live
  shown := by
    intro e he
    rw [entries, commits.log] at he
    rcases List.mem_append.1 he with he | he
    · exact shown e he
    · obtain ⟨a, c, hc, decl, hdecl, hshows⟩ := logged _ (EventLog.toEvent_of_number he)
      exact ⟨a, decl, live a c hc _ decl hdecl, hshows⟩
  used := fun event a decl h => commits.steps.used (used event a decl h)

/-- A commit of a machine whose log is informed. -/
theorem Commits.informed_of_live {top : Layer} {terminations : List Address} {events : List Event}
    (commits : m.Commits top terminations events m') (h : m.log.Informed m.registry)
    (logged : ∀ e ∈ events, (Charter.ofLive m.registry).logs e) : m'.log.Informed m'.registry := by
  have hsame : ∀ event a, m'.log.declared? event a = m.log.declared? event a := by
    rw [commits.log]
    exact fun _ _ => rfl
  refine commits.informed rfl (fun a c hc event decl hdecl => ?_) logged (fun e he => ?_)
    fun event a decl hdecl => ?_
  · rw [hsame]
    exact h.live a c hc event decl hdecl
  · obtain ⟨a, decl, hdecl, hshows⟩ := h.shown e he
    exact ⟨a, decl, (hsame _ _).trans hdecl, hshows⟩
  · exact h.used event a decl ((hsame _ _).symm.trans hdecl)

/-- A commit of a deployment, once the new contract has declared its events. -/
theorem Commits.informed_of_register {registry : Registry} {a deployer : Address}
    {code : ContractCode} {c : Contract} {top : Layer} {terminations : List Address}
    {events : List Event}
    (registered : (m.registry.numbered deployer).register a code = .ok (c, registry))
    (commits : { m with registry := registry }.Commits top terminations events m')
    (h : m.log.Informed m.registry) (logged : ∀ e ∈ events, (Charter.ofLive registry).logs e) :
    (m'.log.declare a c.events.values).Informed m'.registry := by
  have hflatten := Registry.flatten_of_register registered
  have unused : ¬ m.registry.Used a :=
    Registry.unused_of_register (r := m.registry.numbered deployer) registered
  have hlog : ∀ event b, (m'.log.declare a c.events.values).declared? event b =
      (m.log.declare a c.events.values).declared? event b := by
    rw [commits.log]
    exact fun _ _ => rfl
  -- Nothing is known of the new address before, so nothing is overwritten.
  have hother : ∀ event b, b ≠ a →
      (m'.log.declare a c.events.values).declared? event b = m.log.declared? event b :=
    fun event b hb => (hlog event b).trans (EventLog.declared?_declare_of_apart (.inl hb))
  have hold : ∀ event b decl, m.log.declared? event b = some decl →
      (m'.log.declare a c.events.values).declared? event b = some decl := fun event b decl hdecl =>
    (hother event b fun hb => unused (hb ▸ h.used event b decl hdecl)).trans hdecl
  refine commits.informed rfl (fun b d hd event decl hdecl => ?_) logged (fun e he => ?_)
    fun event b decl hdecl => ?_
  · replace hd : registry.find? b = some d := hd
    rw [Registry.find?_register registered] at hd
    split at hd
    · next hb =>
      cases hd
      rw [hb, hlog, ← Contract.event_name hflatten hdecl]
      refine EventLog.declared?_declare_of_mem (Contract.nodup_events hflatten) ?_
      exact List.mem_map.2 ⟨(event, decl), Table.mem_entries_iff.2 hdecl, rfl⟩
    · exact hold event b decl (h.live b d hd event decl hdecl)
  · obtain ⟨b, decl, hdecl, hshows⟩ := h.shown e he
    exact ⟨b, decl, hold _ _ _ hdecl, hshows⟩
  · show registry.Used b
    by_cases hb : b = a
    · refine .inl ?_
      rw [hb, Registry.find?_register registered, if_pos rfl]
      exact Option.some_ne_none c
    · have hused := h.used event b decl ((hother event b hb).symm.trans hdecl)
      exact (Registry.Step.register registered).used
        ((Registry.Step.numbered deployer).used hused)

end Machine

/-- The log stays informed, whatever a host does. -/
theorem Operation.informed_after {m : Machine} (reachable : m.Reachable)
    (h : m.log.Informed m.registry) (op : Operation) :
    (op.after m).log.Informed (op.after m).registry := by
  have idle := reachable.idle
  cases hs : op.succeeds m with
  | false =>
    have kept := (op.atomic reachable).1 hs
    rw [kept.log]
    refine ⟨h.live.of_contracts kept.contracts, h.shown, fun event a decl hdecl => ?_⟩
    exact (op.steps idle).used (h.used event a decl hdecl)
  | true =>
    have ends := op.ends idle
    rw [hs] at ends
    cases op with
    | setBlock b => exact h
    | call sender target fn args value gas =>
      obtain ⟨v, used, logged, hcall⟩ := call_of_succeeds hs
      obtain ⟨-, left, m', step, hr, hm'⟩ := Machine.call_committed hcall
      obtain ⟨top, terminations, events, commits, hevents⟩ := Machine.runTop_logs idle rfl
        (Registry.meets_ofLive reachable.flattened) (reachable.allowed fun _ _ => trivial) hr
      rw [hm']
      exact commits.informed_of_live h hevents
    | deploy code args deployer value gas =>
      obtain ⟨a, hdeploy⟩ := deploy_of_succeeds hs
      obtain ⟨-, c, registry, v, left, logged, m', step, -, registered, hr, hm'⟩ :=
        Machine.deploy_committed hdeploy
      have flattened : registry.Every fun a c => ∃ code, Contract.flatten a code = .ok c :=
        Registry.Every.register (r := m.registry.numbered deployer) reachable.flattened registered
          ⟨code, Registry.flatten_of_register registered⟩
      obtain ⟨top, terminations, events, commits, hevents⟩ :=
        Machine.runTop_logs (m := { m with registry := registry }) idle rfl
          (Registry.meets_ofLive flattened) (reachable.allowed fun _ _ => trivial) hr
      rw [hm']
      exact Machine.Commits.informed_of_register registered commits h hevents
    | fund a n =>
      generalize (Operation.fund a n).after m = m' at ends ⊢
      cases ends with
      | funded commits => exact commits.informed_of_live h fun _ he => absurd he List.not_mem_nil
    | terminate a beneficiary =>
      generalize (Operation.terminate a beneficiary).after m = m' at ends ⊢
      cases ends with
      | terminated _ swept commits =>
        exact commits.informed_of_live h fun _ he => absurd he List.not_mem_nil

namespace Machine

variable {m : Machine}

theorem Reachable.informed (h : m.Reachable) : m.log.Informed m.registry := by
  obtain ⟨settings, hash, ops, rfl⟩ := h
  have fresh : (start settings hash).Reachable := ⟨settings, hash, [], rfl⟩
  refine fresh.perform_keeps (P := fun m => m.log.Informed m.registry)
    ⟨fun _ _ h => (nomatch h), fun _ h => absurd h List.not_mem_nil, fun _ _ _ h => nomatch h⟩
    fun op _ m reachable h => op.informed_after reachable h

end Machine

/-! ## Queries -/

/-- Why a query may miss an event: the declaration that it shows repeats the name of a field, or
it is that of another contract than the one asked for, and only the latter indexes all fields
asked for. -/
def EventLog.Hides (l : EventLog) (q : EventFilter) (e : Event) : Prop :=
  ∃ a decl, l.declared? e.name a = some decl ∧ e.Shows decl ∧
    (¬ decl.Distinct ∨
      q.address ≠ "" ∧ a ≠ q.address ∧ ∃ own, l.declared? e.name q.address = some own ∧
        ∃ name ∈ q.fields.keys, own.Indexes name ∧ ¬ decl.Indexes name)

/-- A declaration that a filter was not compared with is that of another contract than the one
asked for, which has declared the event as well. -/
theorem EventFilter.relevant_or_own {q : EventFilter} {l : EventLog} {decls : Table EventDecl}
    (hdecls : l.declarations.get? q.event = some decls) {a : Address} {decl : EventDecl}
    (hdecl : l.declared? q.event a = some decl) : decl ∈ q.relevant decls ∨
      q.address ≠ "" ∧ a ≠ q.address ∧ ∃ own, l.declared? q.event q.address = some own ∧
        own ∈ q.relevant decls := by
  have hget (b : Address) : l.declared? q.event b = decls.get? b := by
    unfold EventLog.declared?
    rw [hdecls]
    rfl
  rw [hget] at hdecl
  have hvalue : decl ∈ decls.values := List.mem_map.2 ⟨(a, decl), Table.mem_entries_iff.2 hdecl, rfl⟩
  unfold relevant
  by_cases haddress : q.address = ""
  · rw [if_pos haddress]
    exact .inl hvalue
  · rw [if_neg haddress]
    cases hown : decls.get? q.address with
    | none => exact .inl hvalue
    | some own =>
      by_cases ha : a = q.address
      · rw [ha, hown] at hdecl
        exact .inl (List.mem_singleton.2 (Option.some.inj hdecl).symm)
      · exact .inr ⟨haddress, ha, own, (hget _).trans hown, List.mem_singleton.2 rfl⟩

/-- An event in the log that an accepted filter asks for is found, or else it is hidden. -/
theorem EventLog.Informed.found_or_hidden {l : EventLog} {r : Registry} (informed : l.Informed r)
    {q : EventFilter} (accepted : q.check l = .ok ()) {e : LoggedEvent} (he : e ∈ l.entries)
    (asks : q.Asks e.toEvent) : q.matchesEvent e.toEvent = true ∨ l.Hides q e.toEvent := by
  obtain ⟨a, decl, hdecl, hshows⟩ := informed.shown e he
  by_cases indexes : ∀ name ∈ q.fields.keys, decl.Indexes name
  · by_cases distinct : decl.Distinct
    · exact .inl (EventFilter.matches_of_asks asks hshows distinct indexes)
    · exact .inr ⟨a, decl, hdecl, hshows, .inl distinct⟩
  · obtain ⟨name, hname, hindexes⟩ : ∃ name ∈ q.fields.keys, ¬ decl.Indexes name := by
      simpa only [not_forall, exists_prop] using indexes
    refine .inr ⟨a, decl, hdecl, hshows, .inr ?_⟩
    rcases EventFilter.check_eq_ok accepted with hempty | ⟨decls, hdecls, hevent, hchecked⟩
    · rw [hempty] at hname
      cases hname
    · rw [asks.event.resolve_left hevent] at hdecl ⊢
      rcases EventFilter.relevant_or_own hdecls hdecl with hrelevant | ⟨haddress, ha, own, hown, hrelevant⟩
      · exact absurd (hchecked decl hrelevant name hname) hindexes
      · exact ⟨haddress, ha, own, hown, name, hname, hchecked own hrelevant name hname, hindexes⟩

namespace Machine

variable {m : Machine}

/-- A query that is accepted yields events of the log that it asks for, in order, and misses
none that is not hidden from it. -/
theorem query_complete (reachable : m.Reachable) {q : EventFilter} {c : EventCursor}
    (accepted : m.queryEvents q = .ok c) :
    c.drain m.log m.log.size = m.log.matching q ∧
    (∀ e ∈ m.log.matching q, e ∈ m.log.entries ∧ q.Asks e.toEvent) ∧
    ∀ e ∈ m.log.entries, q.Asks e.toEvent →
      e ∈ m.log.matching q ∨ m.log.Hides q e.toEvent := by
  have hcheck : q.check m.log = .ok () := by
    unfold queryEvents EventLog.query at accepted
    cases hq : q.check m.log with
    | ok _ => rfl
    | error e =>
      rw [hq] at accepted
      cases accepted
  refine ⟨EventLog.drain_query accepted, fun e he => ?_, fun e he asks => ?_⟩
  · obtain ⟨hmem, hmatch⟩ := List.mem_filter.1 he
    exact ⟨hmem, EventFilter.asks_of_matches hmatch⟩
  · exact (reachable.informed.found_or_hidden hcheck he asks).imp_left fun hmatch =>
      List.mem_filter.2 ⟨he, hmatch⟩

/-! ## A proxy that declares what it passes on -/

namespace Ping

def declares (isIndexed : Bool) : EventDecl := ⟨"Ping", [⟨"n", .uint256, some isIndexed⟩]⟩

def ping : FunctionDef where
  name := "ping"
  visibility := .external
  mutability := .mutating
  body := [.emit "Ping" (.ofList [("n", .const (.int 1))])]

def relay : FunctionDef where
  name := "relay"
  visibility := .external
  mutability := .mutating
  body := [.call { kind := .delegate, target := .const (.text Mask.face), fn := "ping" }]

def code (name : String) (functions : List FunctionDef) (isIndexed : Bool) : ContractCode where
  name := name
  functions := functions
  events := [declares isIndexed]

def history : List Operation :=
  [.deploy (code "Plain" [ping] false) ∅ Address.zero 0 none,
    .deploy (code "Proxy" [ping, relay] true) ∅ Address.zero 0 none,
    .call Address.zero Mask.wearer "ping" ∅ 0 none,
    .call Address.zero Mask.wearer "relay" ∅ 0 none]

def pinged : Machine := (start .standard Mask.counted).perform history

/-- Asks for both events, of the proxy's own code and of the code that it relays to. -/
def asked : EventFilter where
  address := Mask.wearer
  event := "Ping"
  fields := .ofList [("n", .int 1)]

def logged (logIndex : Nat) (isIndexed : Bool) : LoggedEvent where
  address := Mask.wearer
  name := "Ping"
  fields := [⟨"n", .int 1, isIndexed⟩]
  logIndex := .nearest logIndex

/-- Both events are in the log, and what the proxy declares lets the query through. -/
theorem log_pinged : pinged.log.entries = [logged 0 true, logged 1 false] ∧
    (asked.check pinged.log).toOption.isSome = true := by decide +kernel

theorem query_pinged : pinged.queryEvents asked = .ok { filter := asked } := by
  have haccepted := log_pinged.2
  unfold queryEvents EventLog.query
  cases hcheck : asked.check pinged.log with
  | error e =>
    rw [hcheck] at haccepted
    cases haccepted
  | ok _ => rfl

theorem asks (logIndex : Nat) (isIndexed : Bool) : asked.Asks (logged logIndex isIndexed).toEvent where
  address := .inr rfl
  event := .inr rfl
  fields := by
    intro name value h
    replace h : ((∅ : Table Value).set "n" (.int 1)).get? name = some value := h
    rw [Table.get?_set] at h
    split at h
    · next hname =>
      cases h
      exact ⟨_, List.mem_singleton.2 rfl, hname.symm, rfl⟩
    · cases h

theorem matching_pinged : pinged.log.matching asked = [logged 0 true] := by
  unfold EventLog.matching
  rw [log_pinged.1]
  decide +kernel

theorem mem_entries_relayed : logged 1 false ∈ pinged.log.entries := by
  rw [log_pinged.1]
  exact List.mem_cons_of_mem _ List.mem_cons_self

theorem not_matching_relayed : logged 1 false ∉ pinged.log.matching asked := by
  rw [matching_pinged]
  simp [logged]

end Ping

open Ping in
/-- The proxy indexes the field that is asked for, so the query is accepted; the event that it
relays does not, and is missed. -/
theorem match_missed : pinged.Reachable ∧
    ∃ c, pinged.queryEvents asked = .ok c ∧
      ∃ e ∈ pinged.log.entries, asked.Asks e.toEvent ∧ e ∉ c.drain pinged.log pinged.log.size := by
  refine ⟨⟨.standard, _, history, rfl⟩, _, query_pinged, logged 1 false, mem_entries_relayed,
    asks 1 false, ?_⟩
  rw [EventLog.drain_query query_pinged]
  exact not_matching_relayed

open Ping in
theorem query_complete_ping :
    (EventCursor.drain pinged.log pinged.log.size { filter := asked }) = [logged 0 true] ∧
      pinged.log.Hides asked (logged 1 false).toEvent := by
  have reachable : pinged.Reachable := ⟨.standard, _, history, rfl⟩
  obtain ⟨hdrain, -, hfound⟩ := query_complete reachable query_pinged
  exact ⟨hdrain.trans matching_pinged,
    (hfound _ mem_entries_relayed (asks 1 false)).resolve_left not_matching_relayed⟩

end Machine

end ContractVM
