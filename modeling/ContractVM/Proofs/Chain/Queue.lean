/-
What becomes of the transactions that are submitted.

Submissions are numbered and wait in the queue until a tick takes them.  The batches of all
ticks and the queue, one after the other, are the submissions in order, less those that a tick
for no time has lost (`requests_batches`).  A chain that nobody asks for more can always be
played to where no job and no block is left (`drain_eq_play`).
-/
import ContractVM.Proofs.Chain.Move
import Mathlib.Data.List.DropRight

namespace ContractVM
namespace Chain

variable {c : Chain} {m : Machine} {moves : List Move}

/-- The transactions that are submitted after the last tick. -/
def sinceTick (moves : List Move) : List Transaction :=
  submitted (moves.rtakeWhile fun mv => !mv.isTick)

/-! ## The queue -/

theorem runNext_queue (c : Chain) :
    c.runNext.queue = c.queue ∧ c.runNext.submissions = c.submissions := by
  unfold runNext
  split
  · exact ⟨rfl, rfl⟩
  · next t job _ => exact ⟨(c.runJob_runs t job).queue, (c.runJob_runs t job).submissions⟩

theorem finish_queue (c : Chain) :
    c.finish.queue = c.queue ∧ c.finish.submissions = c.submissions := by
  unfold finish
  split <;> exact ⟨rfl, rfl⟩

/-- Only a submission and a tick change the queue. -/
theorem queue_move (c : Chain) (mv : Move) : (c.move mv).queue =
    if mv.isTick then [] else c.queue ++ numbered c.submissions mv.submitted?.toList := by
  cases mv with
  | submit tx => rfl
  | execute tx | host op => exact (List.append_nil _).symm
  | tick now =>
    unfold move tick
    simp only
    cases now.toInt? <;> rfl
  | run => exact (runNext_queue c).1.trans (List.append_nil _).symm
  | finish => exact (finish_queue c).1.trans (List.append_nil _).symm

theorem submissions_move (c : Chain) (mv : Move) :
    (c.move mv).submissions = c.submissions + mv.submitted?.toList.length := by
  cases mv with
  | submit tx | execute tx | host op => rfl
  | tick now =>
    unfold move tick
    simp only
    cases now.toInt? <;> rfl
  | run => exact (runNext_queue c).2
  | finish => exact (finish_queue c).2

theorem submissions_play (c : Chain) (moves : List Move) :
    (c.play moves).submissions = c.submissions + (submitted moves).length := by
  induction moves using List.reverseRecOn with
  | nil => rfl
  | append_singleton moves mv ih =>
    rw [play_concat, submissions_move, ih, submitted_concat, List.length_append, Nat.add_assoc]

/-- What waits in the queue was submitted after the last tick. -/
theorem queue_play (m : Machine) (moves : List Move) :
    ((on m).play moves).queue.map Prod.snd = sinceTick moves := by
  induction moves using List.reverseRecOn with
  | nil => rfl
  | append_singleton moves mv ih =>
    unfold sinceTick at ih ⊢
    rw [play_concat, queue_move, List.rtakeWhile_concat]
    cases htick : mv.isTick with
    | true => rfl
    | false => simp [submitted_concat, map_snd_numbered, ih]

/-! ## Batches -/

/-- What a move takes from the queue goes into the batch of its job, unless it is a tick for no
time. -/
theorem requested_batches (c : Chain) (mv : Move) :
    ((c.requested mv).flatMap Job.batch ++ (c.move mv).queue).Sublist
        (c.queue ++ numbered c.submissions mv.submitted?.toList) ∧
      (mv.integral = true → (c.requested mv).flatMap Job.batch ++ (c.move mv).queue =
        c.queue ++ numbered c.submissions mv.submitted?.toList) := by
  rw [queue_move]
  cases mv with
  | tick now =>
    unfold requested Move.integral
    simp only
    cases now.toInt? with
    | none => exact ⟨List.nil_sublist _, fun h => nomatch h⟩
    | some timestamp => simp [Job.batch, Move.isTick, Move.submitted?, numbered]
  | submit tx | execute tx | host op | run | finish => simp [requested, Move.isTick, Job.batch]

/-- Every submission is in one batch or in the queue, in the order of the submissions, but for
those that a tick for no time has lost. -/
theorem requests_batches (c : Chain) (moves : List Move) :
    ((c.requests moves).flatMap Job.batch ++ (c.play moves).queue).Sublist
        (c.queue ++ numbered c.submissions (submitted moves)) ∧
      ((∀ mv ∈ moves, mv.integral = true) →
        (c.requests moves).flatMap Job.batch ++ (c.play moves).queue =
          c.queue ++ numbered c.submissions (submitted moves)) := by
  induction moves using List.reverseRecOn with
  | nil => simp [requests, play, submitted, numbered]
  | append_singleton moves mv ih =>
    obtain ⟨hsub, hall⟩ := (c.play moves).requested_batches mv
    rw [submissions_play] at hsub hall
    rw [requests_concat, play_concat, submitted_concat, numbered_append, List.flatMap_append,
      List.append_assoc]
    constructor
    · refine (hsub.append_left _).trans ?_
      rw [← List.append_assoc, ← List.append_assoc c.queue]
      exact ih.1.append_right _
    · intro integral
      rw [hall (integral mv (by simp)), ← List.append_assoc, ← List.append_assoc c.queue,
        ih.2 fun mv hmv => integral mv (List.mem_append_left _ hmv)]

/-! ## Draining -/

theorem repeated_run (n : Nat) (c : Chain) :
    repeated runNext n c = c.play (List.replicate n .run) := by
  induction n generalizing c with
  | zero => rfl
  | succ n ih => exact ih c.runNext

theorem repeated_finish (n : Nat) (c : Chain) :
    repeated finish n c = c.play (List.replicate n .finish) := by
  induction n generalizing c with
  | zero => rfl
  | succ n ih => exact ih c.finish

/-- What a chain does that nobody asks for more. -/
def drainMoves (c : Chain) : List Move :=
  List.replicate c.jobs.tasks.length .run ++
    List.replicate (c.play (List.replicate c.jobs.tasks.length .run)).sealing.length .finish

theorem drain_eq_play (c : Chain) : c.drain = c.play c.drainMoves := by
  unfold drain drainMoves
  rw [play_append, ← repeated_run, repeated_finish]

theorem mem_drainMoves {mv : Move} (h : mv ∈ c.drainMoves) : mv = .run ∨ mv = .finish := by
  rcases List.mem_append.1 h with h | h
  · exact .inl (List.mem_replicate.1 h).2
  · exact .inr (List.mem_replicate.1 h).2

theorem tasks_run {ran : Nat} (h : c.jobs.InTurn ran) (n : Nat) :
    (c.play (List.replicate n .run)).jobs.tasks = c.jobs.tasks.drop n := by
  induction n generalizing c ran with
  | zero => rfl
  | succ n ih =>
    show (c.runNext.play (List.replicate n .run)).jobs.tasks = _
    rcases runNext_cases h with ⟨hnone, hsame⟩ | ⟨job, rest, htasks, -, hrest, hturn⟩
    · rw [hsame, ih h, hnone, List.drop_nil, List.drop_nil]
    · rw [ih hturn, hrest, htasks, List.drop_succ_cons]

theorem sealing_finish (c : Chain) (n : Nat) :
    (c.play (List.replicate n .finish)).sealing = c.sealing.drop n ∧
      (c.play (List.replicate n .finish)).jobs = c.jobs := by
  induction n generalizing c with
  | zero => exact ⟨rfl, rfl⟩
  | succ n ih =>
    obtain ⟨hlater, hjobs⟩ := ih c.finish
    show (c.finish.play (List.replicate n .finish)).sealing = _ ∧
      (c.finish.play (List.replicate n .finish)).jobs = _
    rw [hlater, hjobs]
    rcases c.finish_cases with ⟨hnone, hsame⟩ | ⟨t, b, rest, step, hsealing, hfinish⟩
    · rw [hsame, hnone]
      exact ⟨by simp, rfl⟩
    · rw [hfinish, hsealing]
      exact ⟨rfl, rfl⟩

theorem drain_done {ran : Nat} (h : c.jobs.InTurn ran) :
    c.drain.jobs.tasks = [] ∧ c.drain.sealing = [] := by
  rw [drain_eq_play]
  unfold drainMoves
  rw [play_append]
  obtain ⟨hsealing, hjobs⟩ := (c.play (List.replicate c.jobs.tasks.length .run)).sealing_finish
    (c.play (List.replicate c.jobs.tasks.length .run)).sealing.length
  rw [hjobs, hsealing, tasks_run h]
  exact ⟨List.drop_length, List.drop_length⟩

end Chain
end ContractVM
