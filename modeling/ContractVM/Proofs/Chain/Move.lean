/-
Every schedule of a chain is a serial run.

A schedule is a list of moves: requests, operations that the host makes on the machine itself,
and the parts of jobs that go on, in any order.  What has taken effect after a schedule is a
list of deeds, in which the jobs are those that were asked for, in the order of their tickets,
and the chain is what a serial run of these deeds leaves (`Tracks`).  A move of the schedule
adds at most one deed (`Tracks.move`).
-/
import ContractVM.Proofs.Chain.Serial
import ContractVM.Proofs.Chain.Turns

namespace ContractVM

/-- What can happen next: a request, an operation on the machine, or a step of what was asked
for before. -/
inductive Move where
  | submit (tx : Transaction)
  | execute (tx : Transaction)
  | tick (now : Number)
  | host (op : Operation)
  | run
  | finish

namespace Move

def submitted? : Move → Option Transaction
  | .submit tx => some tx
  | _ => none

def host? : Move → Option Operation
  | .host op => some op
  | _ => none

def isTick : Move → Bool
  | .tick _ => true
  | _ => false

/-- The move is no tick whose time is not an integer. -/
def integral : Move → Bool
  | .tick now => now.toInt?.isSome
  | _ => true

end Move

namespace Chain

/-- A chain over a machine that there is, of which nothing has been asked. -/
def on (m : Machine) : Chain := { machine := m }

def move (c : Chain) : Move → Chain
  | .submit tx => (c.submit tx).2
  | .execute tx => (c.execute tx).2
  | .tick now => (c.tick now).2
  | .host op => { c with machine := op.after c.machine }
  | .run => c.runNext
  | .finish => c.finish

def play (c : Chain) (moves : List Move) : Chain := moves.foldl move c

/-- The job that a move asks for: a tick takes the queue, and the height after that of the last
block, as they are when it is called. -/
def requested (c : Chain) : Move → List Job
  | .execute tx => [.single tx]
  | .tick now =>
    match now.toInt? with
    | none => []
    | some timestamp => [.block c.queue (c.height + 1) timestamp]
  | _ => []

/-- The jobs that a schedule asks for, in order. -/
def requests (c : Chain) : List Move → List Job
  | [] => []
  | mv :: rest => c.requested mv ++ requests (c.move mv) rest

/-- The transactions that are submitted, in order. -/
def submitted (moves : List Move) : List Transaction := moves.filterMap Move.submitted?

variable {c : Chain} {m : Machine} {moves : List Move}

theorem play_append (c : Chain) (before after : List Move) :
    c.play (before ++ after) = (c.play before).play after := List.foldl_append

theorem play_concat (c : Chain) (moves : List Move) (mv : Move) :
    c.play (moves ++ [mv]) = (c.play moves).move mv := by
  rw [play_append]
  rfl

theorem requests_append (c : Chain) (before after : List Move) :
    c.requests (before ++ after) = c.requests before ++ (c.play before).requests after := by
  induction before generalizing c with
  | nil => rfl
  | cons mv rest ih => simp [requests, ih, play]

theorem requests_concat (c : Chain) (moves : List Move) (mv : Move) :
    c.requests (moves ++ [mv]) = c.requests moves ++ (c.play moves).requested mv := by
  rw [requests_append]
  simp [requests]

theorem submitted_concat (moves : List Move) (mv : Move) :
    submitted (moves ++ [mv]) = submitted moves ++ mv.submitted?.toList := by
  unfold submitted
  rw [List.filterMap_append]
  cases mv <;> rfl

/-! ## The moves that are no requests -/

/-- The job whose turn it is runs, if there is one. -/
theorem runNext_cases {ran : Nat} (h : c.jobs.InTurn ran) :
    c.jobs.tasks = [] ∧ c.runNext = c ∨
      ∃ job rest, c.jobs.tasks = (ran, job) :: rest ∧ c.Runs ran job c.runNext ∧
        c.runNext.jobs.tasks = rest ∧ c.runNext.jobs.InTurn (ran + 1) := by
  unfold runNext
  rw [h.next?_eq]
  cases htasks : c.jobs.tasks with
  | nil => exact .inl ⟨rfl, rfl⟩
  | cons p rest =>
    obtain ⟨t, job⟩ := p
    obtain ⟨rfl, -⟩ := h.turn htasks
    have runs := c.runJob_runs t job
    obtain ⟨hrest, hturn⟩ := h.complete htasks
    exact .inr ⟨job, rest, rfl, ⟨runs.machine, runs.settled, runs.queue, runs.height,
      runs.submissions, runs.answered⟩, hrest, hturn⟩

/-- The block that has waited longest becomes an answer, if there is one. -/
theorem finish_cases (c : Chain) :
    c.sealing = [] ∧ c.finish = c ∨
      ∃ t b rest step, c.sealing = (t, b) :: rest ∧ c.finish = { c with
        machine := c.machine.note step, sealing := rest, height := b.height
        answers := c.answers ++ [(t, .ok (.block b))] } := by
  unfold finish
  cases h : c.sealing with
  | nil => exact .inl ⟨rfl, rfl⟩
  | cons p rest => exact .inr ⟨p.1, p.2, rest, _, rfl, rfl⟩

/-! ## Schedules and serial runs -/

/-- The chain has come, by moves that asked for `jobs` and with the operations `ops` of the
host, to where a serial run of `deeds` leads. -/
structure Tracks (m : Machine) (jobs : List Job) (ops : List Operation) (deeds : List Deed)
    (c : Chain) : Prop where
  turn : c.jobs.InTurn (deeds.filterMap Deed.job?).length
  jobs : jobs = deeds.filterMap Deed.job? ++ c.jobs.tasks.map Prod.snd
  ops : ops = deeds.filterMap Deed.host?
  machine : c.machine.untold = (serial m deeds).machine.untold
  settled : c.settled = (serial m deeds).settled
  told : c.told.Perm (numbered 0 (serial m deeds).answers)
  blocks : c.blocks ++ c.sealing.map Prod.snd = (serial m deeds).answers.filterMap Answer.block?

namespace Tracks

variable {jobs : List Job} {ops : List Operation} {deeds : List Deed} {c' : Chain}

theorem start (m : Machine) : Tracks m [] [] [] (on m) where
  turn := Exclusive.inTurn_empty
  jobs := rfl
  ops := rfl
  machine := rfl
  settled := rfl
  told := .refl _
  blocks := rfl

/-- What is only told or queued, and a block that is sealed, is no deed. -/
theorem congr (h : Tracks m jobs ops deeds c) (hjobs : c'.jobs = c.jobs)
    (hmachine : c'.machine.untold = c.machine.untold) (hsettled : c'.settled = c.settled)
    (htold : c'.told = c.told)
    (hblocks : c'.blocks ++ c'.sealing.map Prod.snd = c.blocks ++ c.sealing.map Prod.snd) :
    Tracks m jobs ops deeds c' where
  turn := hjobs ▸ h.turn
  jobs := hjobs ▸ h.jobs
  ops := h.ops
  machine := hmachine.trans h.machine
  settled := hsettled.trans h.settled
  told := htold ▸ h.told
  blocks := hblocks.trans h.blocks

theorem asked (h : Tracks m jobs ops deeds c) (job : Job) (queue : List (Nat × Transaction))
    {machine : Machine} (hmachine : machine.untold = c.machine.untold) :
    Tracks m (jobs ++ [job]) ops deeds
      { c with machine := machine, queue := queue, jobs := (c.jobs.request job).2 } where
  turn := h.turn.request job
  jobs := by simp [h.turn.tasks, h.jobs]
  ops := h.ops
  machine := hmachine.trans h.machine
  settled := h.settled
  told := h.told
  blocks := h.blocks

theorem used (h : Tracks m jobs ops deeds c) (op : Operation) :
    Tracks m jobs (ops ++ [op]) (deeds ++ [.host op])
      { c with machine := op.after c.machine } where
  turn := by simpa [Deed.job?, List.filterMap_cons] using h.turn
  jobs := by simpa [Deed.job?, List.filterMap_cons] using h.jobs
  ops := by simp [Deed.host?, h.ops]
  machine := by
    rw [serial_append]
    exact op.after_congr h.machine
  settled := by
    rw [serial_append]
    exact h.settled
  told := by
    rw [serial_append]
    exact h.told
  blocks := by
    rw [serial_append]
    exact h.blocks

theorem ran {job : Job} {rest : List (Ticket × Job)} (h : Tracks m jobs ops deeds c)
    (htasks : c.jobs.tasks = ((deeds.filterMap Deed.job?).length, job) :: rest)
    (runs : c.Runs (deeds.filterMap Deed.job?).length job c') (hrest : c'.jobs.tasks = rest)
    (hturn : c'.jobs.InTurn ((deeds.filterMap Deed.job?).length + 1)) :
    Tracks m jobs ops (deeds ++ [.job job]) c' := by
  have hanswer := job.answer_congr h.machine
  have hanswers : (serial m (deeds ++ [.job job])).answers =
      (serial m deeds).answers ++ [job.answer c.machine] := by
    rw [serial_append, hanswer]
    rfl
  have hnumbered : numbered 0 (serial m (deeds ++ [.job job])).answers =
      numbered 0 (serial m deeds).answers ++
        [((deeds.filterMap Deed.job?).length, job.answer c.machine)] := by
    rw [hanswers, numbered_append, length_answers, Nat.zero_add]
    rfl
  refine ⟨?_, ?_, ?_, ?_, ?_, ?_, ?_⟩
  · simpa [Deed.job?] using hturn
  · simp [Deed.job?, h.jobs, htasks, hrest]
  · simpa [Deed.host?, List.filterMap_cons] using h.ops
  · rw [serial_append, runs.machine]
    exact Machine.perform_congr h.machine _
  · rw [serial_append, runs.settled, h.settled, job.settles_congr h.machine]
    rfl
  · rw [hnumbered]
    refine List.Perm.trans ?_ (h.told.append_right _)
    unfold Chain.told
    rcases runs.answered with ⟨b, hb, hsame, hsealing⟩ | ⟨-, hadded, hsealing⟩
    · rw [hsame, hsealing, hb]
      simp
    · -- The answer is put in front of the blocks that are being sealed.
      rw [hadded, hsealing]
      simpa using (List.perm_append_singleton _ _).symm.append_left c.answers
  · rw [hanswers, List.filterMap_append, ← h.blocks]
    unfold Chain.blocks
    rcases runs.answered with ⟨b, hb, hsame, hsealing⟩ | ⟨hnone, hadded, hsealing⟩
    · rw [hsame, hsealing, hb]
      simp [Answer.block?]
    · rw [hadded, hsealing]
      simp [hnone]

/-- A move adds at most one deed. -/
theorem move (h : Tracks m jobs ops deeds c) (mv : Move) :
    ∃ deeds', Tracks m (jobs ++ c.requested mv) (ops ++ mv.host?.toList) deeds' (c.move mv) := by
  cases mv with
  | submit tx =>
    refine ⟨deeds, ?_⟩
    simp only [requested, Move.host?, Option.toList_none, List.append_nil]
    exact h.congr rfl rfl rfl rfl rfl
  | execute tx =>
    refine ⟨deeds, ?_⟩
    simp only [Move.host?, Option.toList_none, List.append_nil]
    exact h.asked (.single tx) c.queue rfl
  | tick now =>
    refine ⟨deeds, ?_⟩
    simp only [Move.host?, Option.toList_none, List.append_nil]
    unfold requested Chain.move tick
    simp only
    cases now.toInt? with
    | none =>
      simp only [List.append_nil]
      exact h.congr rfl rfl rfl rfl rfl
    | some timestamp =>
      exact h.asked (.block c.queue (c.height + 1) timestamp) [] (c.machine.untold_note _)
  | host op =>
    refine ⟨deeds ++ [.host op], ?_⟩
    simp only [requested, List.append_nil]
    exact h.used op
  | run =>
    simp only [requested, Move.host?, Option.toList_none, List.append_nil]
    rcases runNext_cases h.turn with ⟨-, hsame⟩ | ⟨job, rest, htasks, runs, hrest, hturn⟩
    · exact ⟨deeds, by rw [Chain.move, hsame]; exact h⟩
    · exact ⟨deeds ++ [.job job], h.ran htasks runs hrest hturn⟩
  | finish =>
    refine ⟨deeds, ?_⟩
    simp only [requested, Move.host?, Option.toList_none, List.append_nil]
    rw [Chain.move]
    rcases c.finish_cases with ⟨-, hsame⟩ | ⟨t, b, rest, step, hsealing, hfinish⟩
    · rw [hsame]
      exact h
    · rw [hfinish]
      refine h.congr rfl rfl rfl ?_ ?_
      · simp [Chain.told, hsealing]
      · simp [Chain.blocks, hsealing, Answer.block?]

end Tracks

/-- Whatever the schedule, the chain is where a serial run of the jobs leads, in the order in
which they were asked for, with the operations of the host in between. -/
theorem tracks (m : Machine) (moves : List Move) :
    ∃ deeds, Tracks m ((on m).requests moves) (moves.filterMap Move.host?) deeds
      ((on m).play moves) := by
  induction moves using List.reverseRecOn with
  | nil => exact ⟨[], .start m⟩
  | append_singleton moves mv ih =>
    obtain ⟨deeds, h⟩ := ih
    rw [requests_concat, play_concat, List.filterMap_append]
    have hop : [mv].filterMap Move.host? = mv.host?.toList := by cases mv <;> rfl
    rw [hop]
    exact h.move mv

end Chain
end ContractVM
