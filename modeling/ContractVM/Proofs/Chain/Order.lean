/-
Requests take effect one at a time, in the order in which they were made.

Without operations of the host in between, the deeds of a schedule are the first so many of
the jobs that were asked for.  So a chain is at any time where it would be if these jobs had
run one after the other, and where all of them lead once nothing is left (`sequential`).
-/
import ContractVM.Proofs.Chain.Queue

namespace ContractVM
namespace Chain

variable {c : Chain} {m : Machine} {moves : List Move} {jobs : List Job}

theorem lookup_told (c : Chain) (t : Ticket) :
    c.told.lookup t = (c.answer? t).or ((c.sealing.lookup t).map fun b => .ok (.block b)) := by
  unfold told answer?
  rw [List.lookup_append]
  congr 1
  induction c.sealing with
  | nil => rfl
  | cons p rest ih =>
    obtain ⟨u, b⟩ := p
    rw [List.map_cons, Table.lookup_entry, Table.lookup_entry, ih]
    split <;> rfl

/-- The jobs one after the other, from a machine `m`. -/
def inOrder (m : Machine) (jobs : List Job) : Ran := serial m (jobs.map .job)

/-- The first `ran` of the jobs have run, one after the other, and the others wait in their
order.  What is known of submissions and of requests is what the run has given, but for blocks
that are still being sealed, and the machine is that of the run, but for what it was told. -/
structure Serialised (m : Machine) (jobs : List Job) (ran : Nat) (c : Chain) : Prop where
  waiting : c.jobs.tasks = (numbered 0 jobs).drop ran
  machine : c.machine.untold = (inOrder m (jobs.take ran)).machine.untold
  settled : c.settled = (inOrder m (jobs.take ran)).settled
  answers : ∀ t, (c.answer? t).or ((c.sealing.lookup t).map fun b => .ok (.block b)) =
    (inOrder m (jobs.take ran)).answers[t]?

theorem eq_map_job {deeds : List Deed} (h : deeds.filterMap Deed.host? = []) :
    deeds = (deeds.filterMap Deed.job?).map .job := by
  induction deeds with
  | nil => rfl
  | cons deed rest ih =>
    cases deed with
    | job job => exact congrArg (Deed.job job :: ·) (ih h)
    | host op => cases h

theorem Tracks.serialised {deeds : List Deed} (h : Tracks m jobs [] deeds c) :
    Serialised m jobs (deeds.filterMap Deed.job?).length c := by
  have htake : jobs.take (deeds.filterMap Deed.job?).length = deeds.filterMap Deed.job? := by
    rw [h.jobs]
    exact List.take_left
  have hserial : inOrder m (jobs.take (deeds.filterMap Deed.job?).length) = serial m deeds := by
    unfold inOrder
    rw [htake, ← eq_map_job h.ops.symm]
  constructor
  · rw [drop_numbered, Nat.zero_add]
    have hdrop : jobs.drop (deeds.filterMap Deed.job?).length = c.jobs.tasks.map Prod.snd := by
      rw [h.jobs]
      exact List.drop_left
    rw [hdrop]
    exact h.turn.tasks_eq
  · rw [hserial]
    exact h.machine
  · rw [hserial]
    exact h.settled
  · intro t
    rw [hserial, ← lookup_told]
    exact lookup_of_perm h.told t

theorem serialised_play (own : ∀ mv ∈ moves, mv.host? = none) :
    ∃ ran, Serialised m ((on m).requests moves) ran ((on m).play moves) := by
  obtain ⟨deeds, h⟩ := tracks m moves
  rw [List.filterMap_eq_nil_iff.2 own] at h
  exact ⟨_, h.serialised⟩

/-! ## Until nothing is left -/

theorem requests_quiet (c : Chain) {moves : List Move} (h : ∀ mv ∈ moves, mv = .run ∨ mv = .finish) :
    c.requests moves = [] := by
  induction moves generalizing c with
  | nil => rfl
  | cons mv rest ih =>
    rw [requests, ih (c.move mv) fun mv hmv => h mv (List.mem_cons_of_mem _ hmv)]
    rcases h mv List.mem_cons_self with rfl | rfl <;> rfl

theorem inTurn_play (m : Machine) (moves : List Move) :
    ∃ ran, ((on m).play moves).jobs.InTurn ran := by
  obtain ⟨deeds, h⟩ := tracks m moves
  exact ⟨_, h.turn⟩

/-- When nothing is left, every job that was asked for is among the deeds. -/
theorem tracks_drain (m : Machine) (moves : List Move) :
    ∃ deeds, deeds.filterMap Deed.job? = (on m).requests moves ∧
      Tracks m ((on m).requests moves) (moves.filterMap Move.host?) deeds ((on m).play moves).drain := by
  obtain ⟨ran, hturn⟩ := inTurn_play m moves
  obtain ⟨deeds, h⟩ := tracks m (moves ++ ((on m).play moves).drainMoves)
  have hhost : ((on m).play moves).drainMoves.filterMap Move.host? = [] :=
    List.filterMap_eq_nil_iff.2 fun mv hmv => by rcases mem_drainMoves hmv with rfl | rfl <;> rfl
  rw [requests_append, requests_quiet _ fun mv hmv => mem_drainMoves hmv, List.append_nil,
    List.filterMap_append, hhost, List.append_nil, play_append, ← drain_eq_play] at h
  refine ⟨deeds, ?_, h⟩
  rw [h.jobs, (drain_done hturn).1]
  exact (List.append_nil _).symm

theorem serialised_drain (own : ∀ mv ∈ moves, mv.host? = none) :
    Serialised m ((on m).requests moves) ((on m).requests moves).length
      ((on m).play moves).drain := by
  obtain ⟨deeds, hall, h⟩ := tracks_drain m moves
  rw [List.filterMap_eq_nil_iff.2 own] at h
  exact hall ▸ h.serialised

theorem answer_drain (m : Machine) (moves : List Move) :
    ∃ deeds, deeds.filterMap Deed.job? = (on m).requests moves ∧
      ∀ t, ((on m).play moves).drain.answer? t = (serial m deeds).answers[t]? := by
  obtain ⟨ran, hturn⟩ := inTurn_play m moves
  obtain ⟨deeds, hall, h⟩ := tracks_drain m moves
  refine ⟨deeds, hall, fun t => ?_⟩
  have htold := lookup_of_perm h.told t
  rw [lookup_told, (drain_done hturn).2, List.lookup_nil, Option.map_none, Option.or_none] at htold
  exact htold

/-- When nothing is left, a tick has given its block, unless an account is too large for a
root. -/
theorem sealed_drain (reachable : m.Reachable) {t : Ticket} {batch : List (Nat × Transaction)}
    {height : Nat} {timestamp : Int}
    (asked : ((on m).requests moves)[t]? = some (.block batch height timestamp)) :
    (∃ b, ((on m).play moves).drain.answer? t = some (.ok (.block b))) ∨
      ∃ f, ((on m).play moves).drain.answer? t = some (.error f) ∧ f.Oversize := by
  obtain ⟨deeds, hall, hanswers⟩ := answer_drain m moves
  rw [← hall] at asked
  obtain ⟨m', hm', hanswer, -⟩ := serial_ran (m := m) asked
  rw [hanswers, hanswer]
  rcases Job.answer_block (hm' reachable) batch height timestamp with ⟨root, hb⟩ | ⟨f, hf, large⟩
  · exact .inl ⟨_, congrArg some hb⟩
  · exact .inr ⟨f, congrArg some hf, large⟩

theorem settled_drain (m : Machine) (moves : List Move) :
    ((on m).play moves).drain.settled.map Prod.fst =
      (((on m).requests moves).flatMap Job.batch).map Prod.fst := by
  obtain ⟨deeds, hall, h⟩ := tracks_drain m moves
  rw [h.settled, serial_settled, hall]

/-! ## Requests and their tickets -/

theorem ticket_next (m : Machine) (moves : List Move) (job : Job) :
    (((on m).play moves).jobs.request job).1 = ((on m).requests moves).length := by
  obtain ⟨deeds, h⟩ := tracks m moves
  rw [h.turn.ticket, h.jobs]
  simp

/-- A tick for a time is the next request, for all that is in the queue. -/
theorem tick_asks (m : Machine) (before after : List Move) {now : Number} {timestamp : Int}
    (time : now.toInt? = some timestamp) :
    (((on m).play before).tick now).1 = .ok ((on m).requests before).length ∧
      ((on m).requests (before ++ .tick now :: after))[((on m).requests before).length]? =
        some (.block ((on m).play before).queue (((on m).play before).height + 1) timestamp) := by
  constructor
  · unfold tick
    simp only [time]
    exact congrArg Except.ok (ticket_next m before _)
  · rw [requests_append]
    simp [requests, requested, time]

/-- A chain over `m` with the schedule `moves` is where its requests lead if they run one after
the other, and what they run is what was asked for. -/
structure Sequential (m : Machine) (moves : List Move) : Prop where
  serialised : ∃ ran, Serialised m ((on m).requests moves) ran ((on m).play moves)
  drained : Serialised m ((on m).requests moves) ((on m).requests moves).length
    ((on m).play moves).drain
  /-- A transaction that is to run at once is the next request. -/
  executes : ∀ before tx after, moves = before ++ .execute tx :: after →
    (((on m).play before).execute tx).1 = ((on m).requests before).length ∧
      ((on m).requests moves)[((on m).requests before).length]? = some (.single tx)
  /-- A tick is the next request, for the transactions that were submitted since the last
  tick, at its own time and at the height that follows that of the last block. -/
  ticks : ∀ before now after, moves = before ++ .tick now :: after →
    ∃ batch timestamp, now.toInt? = some timestamp ∧ batch.map Prod.snd = sinceTick before ∧
      (((on m).play before).tick now).1 = .ok ((on m).requests before).length ∧
      ((on m).requests moves)[((on m).requests before).length]? =
        some (.block batch (((on m).play before).height + 1) timestamp)
  /-- Submissions are numbered, and each is in the batch of one tick or in the queue. -/
  submits : ∀ before tx after, moves = before ++ .submit tx :: after →
    (((on m).play before).submit tx).1 = (submitted before).length
  batches : ((on m).requests moves).flatMap Job.batch ++ ((on m).play moves).queue =
    numbered 0 (submitted moves)
  /-- Each is settled once, or is in the queue. -/
  once : ((on m).play moves).drain.settled.map Prod.fst ++ ((on m).play moves).queue.map Prod.fst =
    List.range (submitted moves).length
  /-- A tick gives its block, unless an account is too large for a root. -/
  sealed : ∀ t batch height timestamp,
    ((on m).requests moves)[t]? = some (.block batch height timestamp) →
      (∃ b, ((on m).play moves).drain.answer? t = some (.ok (.block b))) ∨
        ∃ f, ((on m).play moves).drain.answer? t = some (.error f) ∧ f.Oversize

/-- Whatever the schedule, the requests of a chain take effect one at a time, in the order in
which they were made. -/
theorem sequential (m : Machine) (reachable : m.Reachable) (moves : List Move)
    (plain : ∀ mv ∈ moves, mv.integral = true ∧ mv.host? = none) : Sequential m moves where
  serialised := serialised_play fun mv hmv => (plain mv hmv).2
  drained := serialised_drain fun mv hmv => (plain mv hmv).2
  executes := by
    rintro before tx after rfl
    refine ⟨ticket_next m before (.single tx), ?_⟩
    rw [requests_append]
    simp [requests, requested]
  ticks := by
    rintro before now after rfl
    have integral := (plain (.tick now) (by simp)).1
    obtain ⟨timestamp, time⟩ := Option.isSome_iff_exists.1 integral
    obtain ⟨hticket, hjob⟩ := tick_asks m before after time
    exact ⟨_, timestamp, time, queue_play m before, hticket, hjob⟩
  submits := by
    rintro before tx after rfl
    exact (submissions_play (on m) before).trans (Nat.zero_add _)
  batches := (requests_batches (on m) moves).2 fun mv hmv => (plain mv hmv).1
  once := by
    have hbatches := (requests_batches (on m) moves).2 fun mv hmv => (plain mv hmv).1
    rw [settled_drain, ← List.map_append, hbatches]
    exact (map_fst_numbered 0 _).trans List.range_eq_range'.symm
  sealed := fun _ _ _ _ asked => sealed_drain reachable asked

/-- A call of a contract that is not there. -/
def ring : Transaction := .call Address.zero Address.zero "ring" ∅ none none

/-- A tick is called while another has not run, and a transaction is to run between the two. -/
def overlap : List Move :=
  [.submit ring, .tick (.ofNat 1), .submit ring, .execute ring, .tick (.ofNat 2), .submit ring,
    .run, .run, .finish, .run, .finish]

theorem sequential_overlap :
    (on (.start .standard)).requests overlap =
        [.block [(0, ring)] 1 1, .single ring, .block [(1, ring)] 1 2] ∧
      Sequential (.start .standard) overlap :=
  ⟨rfl, sequential _ ⟨.standard, _, [], rfl⟩ overlap (by decide)⟩

end Chain
end ContractVM
