/-
A transaction commits as a whole or not at all.

`Machine.Commits` says what a commit makes of a machine: the layer is merged, the
terminated contracts are gone, the events are logged and one entry is journalled.
`runTop_ends` and `commitHost_ends` show that the first frame of a transaction
and the host's own changes end with exactly that or change nothing.  After the
merge nothing can fail any more: only live contracts are retired, each once, and
no layer is open.
-/
import ContractVM.Proofs.Exec.Grounded
import ContractVM.Proofs.Exec.Instr
import ContractVM.Proofs.Journal.Faults
import ContractVM.Proofs.Machine.Operation
import ContractVM.Proofs.Text.Units

namespace ContractVM

/-! ## Sealing -/

namespace Machine

theorem foldlM_retireContract (l : List Address) (m : Machine) (idle : m.storage.layers = [])
    (nodup : l.Nodup) (live : ∀ a ∈ l, m.registry.find? a ≠ none) :
    l.foldlM retireContract m = .ok { m with
      registry := l.foldl Registry.retire m.registry
      storage := ⟨l.foldl Layer.erase m.storage.persisted, []⟩ } := by
  induction l generalizing m with
  | nil =>
    have hm : (⟨m.storage.persisted, []⟩ : Storage) = m.storage := by rw [← idle]
    simp only [List.foldl_nil, hm]
    rfl
  | cons a rest ih =>
    rw [List.nodup_cons] at nodup
    have held : m.registry.contracts.contains a = true :=
      Option.isSome_iff_ne_none.2 (live a List.mem_cons_self)
    have hterm : m.registry.terminate a = .ok (m.registry.retire a) := by
      unfold Registry.terminate
      rw [if_pos held]
    have hdestroy : m.storage.destroy a = .ok ⟨m.storage.persisted.erase a, []⟩ := by
      unfold Storage.destroy Storage.whenIdle
      rw [idle]
    have hstep : retireContract m a = .ok { m with
        registry := m.registry.retire a, storage := ⟨m.storage.persisted.erase a, []⟩ } := by
      unfold retireContract
      rw [hterm, hdestroy]
      rfl
    rw [List.foldlM_cons, hstep]
    refine ih _ rfl nodup.2 fun b hb => ?_
    rw [Registry.find?_retire, if_neg (fun h : b = a => nodup.1 (h ▸ hb))]
    exact live b (List.mem_cons_of_mem _ hb)

theorem foldlM_retireContract_eq_ok {l : List Address} {m m' : Machine}
    (h : l.foldlM retireContract m = .ok m') :
    ∃ registry storage, m' = { m with registry := registry, storage := storage } := by
  induction l generalizing m with
  | nil =>
    cases h
    exact ⟨m'.registry, m'.storage, rfl⟩
  | cons a rest ih =>
    rw [List.foldlM_cons] at h
    obtain ⟨retired, hretired, h⟩ := Codec.bind_eq_ok.1 h
    obtain ⟨registry, -, hretired⟩ := Codec.bind_eq_ok.1 hretired
    obtain ⟨storage, -, hretired⟩ := Codec.bind_eq_ok.1 hretired
    cases hretired
    obtain ⟨registry, storage, hm'⟩ := ih h
    exact ⟨registry, storage, hm'⟩

/-- A commit replaces the registry, the storage and the journal only. -/
theorem commitStaged_eq_ok {m m' : Machine} {storage : Storage} {s : Staged}
    (h : commitStaged m storage s = .ok m') : ∃ registry storage journal,
      m' = { m with registry := registry, storage := storage, journal := journal } := by
  obtain ⟨merged, -, h⟩ := Codec.bind_eq_ok.1 h
  obtain ⟨finished, hretired, h⟩ := Codec.bind_eq_ok.1 h
  cases h
  obtain ⟨registry, storage, rfl⟩ := foldlM_retireContract_eq_ok hretired
  exact ⟨registry, storage, _, rfl⟩

/-- What a commit makes of a machine: `top` is its layer, and the first frame
buffered `terminations` and `events`. -/
structure Commits (m : Machine) (top : Layer) (terminations : List Address) (events : List Event)
    (m' : Machine) : Prop where
  journal : ∃ entry, Codec.encodeEntry ⟨{ top.delta with destroyed := terminations.eraseDups },
      EventLog.number m.log.size events⟩ = .ok entry ∧ m'.journal = m.journal ++ [entry]
  storage : m'.storage =
    ⟨terminations.eraseDups.foldl Layer.erase (m.storage.persisted.merge top), []⟩
  registry : m'.registry = terminations.eraseDups.foldl Registry.retire m.registry
  log : m'.log = { m.log with
    entries := m.log.entries ++ EventLog.number m.log.size events }
  locks : m'.locks = m.locks
  hash : m'.hash = m.hash

/-- With one layer open and live contracts to retire, a commit goes through once
its entry is encoded. -/
theorem commitStaged_eq (m : Machine) (top : Layer) (entry : Bytes) {retired : List Address}
    (nodup : retired.Nodup) (live : ∀ a ∈ retired, m.registry.find? a ≠ none) :
    commitStaged m ⟨m.storage.persisted, [top]⟩ ⟨entry, retired⟩ = .ok { m with
      registry := retired.foldl Registry.retire m.registry
      storage := ⟨retired.foldl Layer.erase (m.storage.persisted.merge top), []⟩
      journal := m.journal ++ [entry] } := by
  unfold commitStaged sealEntry
  have hretire := foldlM_retireContract retired
    { m with storage := ⟨m.storage.persisted.merge top, []⟩ } rfl nodup live
  show (List.foldlM retireContract { m with storage := ⟨m.storage.persisted.merge top, []⟩ } retired
    >>= _) = _
  rw [hretire]
  rfl

section Stage

variable {p top : Layer} {terminations : List Address} {events : List LoggedEvent}

theorem stage_eq_ok {entry : Bytes} (h : Codec.encodeEntry
    ⟨{ top.delta with destroyed := terminations.eraseDups }, events⟩ = .ok entry) :
    stage ⟨p, [top]⟩ terminations events = .ok ⟨entry, terminations.eraseDups⟩ := by
  have hdestroyed : top.delta.destroyed = [] := rfl
  unfold stage Storage.staged
  simp only [hdestroyed, List.nil_append, h]

theorem stage_eq_error {f : Fault} (h : Codec.encodeEntry
    ⟨{ top.delta with destroyed := terminations.eraseDups }, events⟩ = .error f) :
    stage ⟨p, [top]⟩ terminations events = .error f := by
  have hdestroyed : top.delta.destroyed = [] := rfl
  unfold stage Storage.staged
  simp only [hdestroyed, List.nil_append, h]

end Stage

/-! ## The first frame -/

variable {m : Machine} {r : Request} {t : Site}

theorem topSite_alive (m : Machine) (meter : GasMeter) (direct : r.storageAddress = r.codeAddress) :
    (Place.frame m.environment r).Alive (m.topSite (m.topFrame r meter)) := by
  intro hcode
  show m.registry.find? r.storageAddress ≠ none
  rw [direct]
  exact hcode

/-- What is true of the first frame of a transaction wherever it stops. -/
structure Topmost (m : Machine) (t : Site) : Prop where
  storage : m.storage.snapshot.Above t.world.storage
  locks : m.locks.Taken t.frame.tokens t.world.locks
  parent : t.frame.parent = none

theorem Topmost.of_run {meter : GasMeter} {e : Option Fault}
    (h : Run (.frame m.environment r) (m.topSite (m.topFrame r meter)) e t) : m.Topmost t where
  storage := h.above (List.cons_ne_nil _ _)
  locks := by
    obtain ⟨tokens, htokens, htaken, -⟩ := h.locks
    rw [htokens]
    exact htaken
  parent := h.same.parent

theorem leave_eq (m : Machine) (h : m.locks.Taken t.frame.tokens t.world.locks) :
    ∃ trail, m.leave t = { m with storage := t.world.storage, trail := trail } := by
  refine ⟨(t.unlock t.frame.tokens).world.trail, ?_⟩
  have hlocks : (t.unlock t.frame.tokens).world.locks = m.locks := h.releaseAll
  unfold leave
  simp only [hlocks]
  rfl

theorem settleTop_raised (h : m.Topmost t) (c : Cause) (p : Bool)
    (hphase : t.frame.phase = .binding ∨ t.frame.phase = .executing) :
    ∃ left t' trail, t.revert c p = .ok (.reverted c left, t') ∧
      m.settleTop t (.raised c p) = .ok (.reverted c left, []) { m with trail := trail } := by
  obtain ⟨left, t', hrevert⟩ := Exec.revert_eq_ok c p h.storage.layers_ne hphase
  have hstorage : t'.world.storage = m.storage := by
    obtain ⟨f, g, storage, -, hstorage, -, -, rfl⟩ := Site.revert_eq hrevert
    exact Storage.rollback_above_snapshot h.storage hstorage
  obtain ⟨htokens, hlocks⟩ := Site.tokens_revert hrevert
  obtain ⟨trail, hleave⟩ := m.leave_eq (t := t') (by rw [htokens, hlocks]; exact h.locks)
  refine ⟨left, t', trail, hrevert, ?_⟩
  unfold settleTop
  rw [Exec.settle_raised hrevert]
  simp only [hleave, hstorage]

theorem settleTop_foreign (h : m.Topmost t) {f : Fault} (foreign : ∀ c p, f ≠ .raised c p) :
    ∃ trail, m.settleTop t f = .error f { m with trail := trail } := by
  obtain ⟨storage, hrollback⟩ := Storage.rollback_eq_ok_of_ne h.storage.layers_ne
  have hstorage : storage = m.storage := Storage.rollback_above_snapshot h.storage hrollback
  obtain ⟨trail, hleave⟩ := m.leave_eq (t := t.withStorage storage) h.locks
  refine ⟨trail, ?_⟩
  unfold settleTop
  rw [Exec.settle_foreign foreign hrollback]
  simp only [hleave]
  rw [show (t.withStorage storage).world.storage = m.storage from hstorage]

inductive Ends (m : Machine) (r : Request) :
    EStateM.Result Fault Machine (Outcome × List LoggedEvent) → Prop
  | failed {f} (trail : Trail) : Ends m r (.error f { m with trail := trail })
  | reverted {meter t t' c p left} (budget : GasMeter.ofBudget? r.gas = some meter)
    (ran : Run (.frame m.environment r) (m.topSite (m.topFrame r meter)) (some (.raised c p)) t)
    (ended : t.revert c p = .ok (.reverted c left, t')) (trail : Trail) :
    Ends m r (.ok (.reverted c left, []) { m with trail := trail })
  | committed {meter t top value m'} (budget : GasMeter.ofBudget? r.gas = some meter)
    (ran : Run (.frame m.environment r) (m.topSite (m.topFrame r meter)) none t)
    (storage : t.world.storage = ⟨m.storage.persisted, [top]⟩)
    (commits : m.Commits top t.frame.terminations t.frame.pending m')
    (trail : m'.trail = (t.frame.tokens.map fun l => Step.unlocked t.frame.id l.address).reverse ++
      .committed t.frame.id t.frame.meter.left :: t.world.trail) :
    Ends m r (.ok (.committed value t.frame.meter.left, EventLog.number m.log.size t.frame.pending)
      m')

/-- A first frame whose code has ended is committed as a whole, or undone because its
entry cannot be written. -/
theorem commitTop_cases {meter : GasMeter} (idle : m.storage.layers = [])
    (direct : r.storageAddress = r.codeAddress)
    (ran : Run (.frame m.environment r) (m.topSite (m.topFrame r meter)) none t)
    (hphase : t.frame.phase = .committing) (value : Option Value) :
    ∃ top, t.world.storage = ⟨m.storage.persisted, [top]⟩ ∧
      ((∃ f trail, Codec.encodeEntry ⟨{ top.delta with destroyed := t.frame.terminations.eraseDups },
          EventLog.number m.log.size t.frame.pending⟩ = .error f ∧
        m.commitTop t value = .error f { m with trail := trail }) ∨
      ∃ m', m.commitTop t value = .ok (.committed value t.frame.meter.left,
          EventLog.number m.log.size t.frame.pending) m' ∧
        m.Commits top t.frame.terminations t.frame.pending m' ∧
        m'.trail = (t.frame.tokens.map fun l => Step.unlocked t.frame.id l.address).reverse ++
          .committed t.frame.id t.frame.meter.left :: t.world.trail) := by
  have topmost := Topmost.of_run ran
  obtain ⟨top, htop⟩ := topmost.storage
  have hstorage : t.world.storage = ⟨m.storage.persisted, [top]⟩ := by
    rw [htop]
    show (⟨m.storage.persisted, top :: m.storage.layers⟩ : Storage) = _
    rw [idle]
  have live : ∀ a ∈ t.frame.terminations.eraseDups, m.registry.find? a ≠ none := by
    intro a ha
    exact (ran.grounded (m.topSite_alive meter direct) .start).terminations a (List.mem_eraseDups.1 ha)
  have hlogged : m.log.staged t.frame = .ok (EventLog.number m.log.size t.frame.pending) := by
    unfold EventLog.staged
    rw [topmost.parent]
    rfl
  refine ⟨top, hstorage, ?_⟩
  unfold commitTop
  simp only [hlogged, hstorage]
  cases hentry : Codec.encodeEntry ⟨{ top.delta with destroyed := t.frame.terminations.eraseDups },
      EventLog.number m.log.size t.frame.pending⟩ with
  | error f =>
    obtain ⟨trail, hsettle⟩ :=
      settleTop_foreign topmost (Codec.encodeEntry_unwritten _ _ _ f hentry).foreign
    simp only [stage_eq_error hentry, hsettle]
    exact .inl ⟨f, trail, rfl, rfl⟩
  | ok entry =>
    simp only [stage_eq_ok hentry, commitStaged_eq m top entry (Text.nodup_eraseDups _) live]
    obtain ⟨f, hdone⟩ := Frame.transition_of_mem (f := { t.frame with pending := [] })
      .done (by
        show Phase.done ∈ t.frame.phase.following
        rw [hphase]
        decide)
    obtain ⟨ending, rfl⟩ : ∃ ending, f =
        { t.frame with pending := [], phase := .done, ending := ending } :=
      ⟨f.ending, (Frame.transition_eq_ok hdone).2⟩
    simp only [EventLog.flush, hdone]
    exact .inr ⟨_, rfl, ⟨⟨entry, hentry, rfl⟩, rfl, rfl, rfl, topmost.locks.releaseAll, rfl⟩, rfl⟩

theorem commitTop_ends {meter : GasMeter} (idle : m.storage.layers = [])
    (direct : r.storageAddress = r.codeAddress) (budget : GasMeter.ofBudget? r.gas = some meter)
    (ran : Run (.frame m.environment r) (m.topSite (m.topFrame r meter)) none t)
    (hphase : t.frame.phase = .committing) (value : Option Value) :
    Ends m r (m.commitTop t value) := by
  obtain ⟨top, storage, ⟨f, trail, -, hcommit⟩ | ⟨m', hcommit, commits, trail⟩⟩ :=
    commitTop_cases idle direct ran hphase value
  · rw [hcommit]
    exact .failed trail
  · rw [hcommit]
    exact .committed budget ran storage commits trail

/-- A transaction commits as a whole or leaves the machine as it was. -/
theorem runTop_ends (idle : m.storage.layers = []) (direct : r.storageAddress = r.codeAddress) :
    Ends m r (runTop r m) := by
  unfold runTop
  cases budget : GasMeter.ofBudget? r.gas with
  | none => exact .failed (m := m) m.trail
  | some meter =>
    have lives := Exec.attempt_lives (s := m.topSite (m.topFrame r meter))
      (runBody_follows (nesting r.gas)) m.environment r rfl
    simp only
    cases hr : Exec.attempt (runBody (nesting r.gas)) m.environment r
        (m.topSite (m.topFrame r meter)) with
    | ok value t =>
      rw [hr] at lives
      exact commitTop_ends idle direct budget lives.1 lives.2 value
    | error f t =>
      rw [hr] at lives
      have topmost := Topmost.of_run lives.1
      simp only
      by_cases hf : ∃ c p, f = .raised c p
      · obtain ⟨c, p, rfl⟩ := hf
        obtain ⟨left, t', trail, ended, hsettle⟩ := settleTop_raised topmost c p lives.2
        rw [hsettle]
        exact .reverted budget lives.1 ended trail
      · obtain ⟨trail, hsettle⟩ := settleTop_foreign topmost fun c p h => hf ⟨c, p, h⟩
        rw [hsettle]
        exact .failed trail

/-- What was run and merged when a transaction committed. -/
theorem runTop_committed (idle : m.storage.layers = []) (direct : r.storageAddress = r.codeAddress)
    {v : Option Value} {left : Int} {logged : List LoggedEvent} {m' : Machine}
    (h : runTop r m = .ok (.committed v left, logged) m') :
    ∃ meter t top, GasMeter.ofBudget? r.gas = some meter ∧
      Exec.attempt (runBody (nesting r.gas)) m.environment r (m.topSite (m.topFrame r meter)) =
        .ok v t ∧
      Run (.frame m.environment r) (m.topSite (m.topFrame r meter)) none t ∧
      t.world.storage = ⟨m.storage.persisted, [top]⟩ ∧
      m.Commits top t.frame.terminations t.frame.pending m' := by
  unfold runTop at h
  cases budget : GasMeter.ofBudget? r.gas with
  | none =>
    rw [budget] at h
    cases h
  | some meter =>
    have lives := Exec.attempt_lives (s := m.topSite (m.topFrame r meter))
      (runBody_follows (nesting r.gas)) m.environment r rfl
    rw [budget] at h
    simp only at h
    cases hr : Exec.attempt (runBody (nesting r.gas)) m.environment r
        (m.topSite (m.topFrame r meter)) with
    | ok value t =>
      rw [hr] at lives h
      obtain ⟨top, storage, ⟨f, trail, -, hcommit⟩ | ⟨m'', hcommit, commits, -⟩⟩ :=
        commitTop_cases idle direct lives.1 lives.2 value
      · simp only [hcommit] at h
        cases h
      · simp only [hcommit] at h
        cases h
        exact ⟨meter, t, top, rfl, hr, lives.1, storage, commits⟩
    | error f t =>
      rw [hr] at lives h
      simp only at h
      have topmost := Topmost.of_run lives.1
      by_cases hf : ∃ c p, f = .raised c p
      · obtain ⟨c, p, rfl⟩ := hf
        obtain ⟨left, t', trail, -, hsettle⟩ := settleTop_raised topmost c p lives.2
        rw [hsettle] at h
        cases h
      · obtain ⟨trail, hsettle⟩ := settleTop_foreign topmost fun c p h => hf ⟨c, p, h⟩
        rw [hsettle] at h
        cases h

/-! ## Changes of the host -/

/-- Whether it commits or not, a change by the host replaces no more than a commit does. -/
theorem left_commitHost (m : Machine) (change : Storage → Except Misuse Storage)
    (terminations : List Address) : ∃ registry storage journal,
      Host.left (commitHost change terminations m) =
        { m with registry := registry, storage := storage, journal := journal } := by
  unfold commitHost
  split
  · exact ⟨m.registry, m.storage, m.journal, rfl⟩
  · split
    · exact ⟨m.registry, m.storage, m.journal, rfl⟩
    · split
      · exact ⟨m.registry, m.storage, m.journal, rfl⟩
      · next hcommitted => exact commitStaged_eq_ok hcommitted

/-- A change that the host makes to the storage commits as a whole or not at all. -/
theorem commitHost_ends (change : Storage → Except Misuse Storage) (terminations : List Address)
    (idle : m.storage.layers = [])
    (above : ∀ s, change m.storage.snapshot = .ok s → m.storage.snapshot.Above s)
    (live : ∀ a ∈ terminations, m.registry.find? a ≠ none) :
    (∃ f, commitHost change terminations m = .error f m) ∨
      ∃ top m', change m.storage.snapshot = .ok ⟨m.storage.persisted, [top]⟩ ∧
        commitHost change terminations m = .ok () m' ∧
        m.Commits top terminations [] m' ∧ m'.trail = m.trail := by
  unfold commitHost
  cases hchange : change m.storage.snapshot with
  | error e => exact .inl ⟨_, rfl⟩
  | ok s =>
    obtain ⟨top, htop⟩ := above s hchange
    have hs : s = ⟨m.storage.persisted, [top]⟩ := by
      rw [htop]
      show (⟨m.storage.persisted, top :: m.storage.layers⟩ : Storage) = _
      rw [idle]
    subst hs
    cases hentry : Codec.encodeEntry ⟨{ top.delta with destroyed := terminations.eraseDups }, []⟩ with
    | error f =>
      simp only [stage_eq_error hentry]
      exact .inl ⟨f, rfl⟩
    | ok entry =>
      have live' : ∀ a ∈ terminations.eraseDups, m.registry.find? a ≠ none :=
        fun a ha => live a (List.mem_eraseDups.1 ha)
      simp only [stage_eq_ok hentry, commitStaged_eq m top entry (Text.nodup_eraseDups _) live']
      refine .inr ⟨top, _, rfl, rfl, ⟨⟨entry, hentry, rfl⟩, rfl, rfl, ?_, rfl, rfl⟩, rfl⟩
      show m.log = { m.log with entries := m.log.entries ++ [] }
      rw [List.append_nil]

end Machine

end ContractVM
