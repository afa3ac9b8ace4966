/-
What requests do to a machine when they are run one after the other.

A transaction is an operation of the host with a receipt, a block sets its context and runs
its transactions in order, and `serial` runs whatever takes effect, one deed after the other.
None of this reads what the machine was told, so it may be compared on machines that are the
same untold.  Running the next job of a chain is one step of it (`Chain.runJob_runs`).
-/
import ContractVM.Chain
import ContractVM.Proofs.Machine.Root
import ContractVM.Proofs.Machine.Untold
import Mathlib.Data.List.Induction

namespace ContractVM

/-! ## Transactions -/

def Transaction.operation : Transaction → Operation
  | .deploy sender code args value gas => .deploy code args sender (value.getD 0) gas
  | .call sender target fn args value gas => .call sender target fn args (value.getD 0) gas

/-- The receipt of a transaction that runs on `m`, or the fault it is rejected with. -/
def Transaction.outcome (submission : Option Nat) (tx : Transaction) (m : Machine) :
    Except Fault Receipt :=
  match Chain.applyTx submission tx m with
  | .ok r _ => .ok r
  | .error f _ => .error f

/-- What becomes of transactions that run one after the other. -/
def settlements (m : Machine) : List (Nat × Transaction) → List (Nat × Except Fault Receipt)
  | [] => []
  | (id, tx) :: rest => (id, tx.outcome (some id) m) :: settlements (tx.operation.after m) rest

theorem map_settlements (m : Machine) (batch : List (Nat × Transaction)) :
    (settlements m batch).map Prod.fst = batch.map Prod.fst := by
  induction batch generalizing m with
  | nil => rfl
  | cons q rest ih => simp [settlements, ih]

/-! ## Jobs and deeds -/

/-- The block that an answer is. -/
def Answer.block? : Except Fault Answer → Option Block
  | .ok (.block b) => some b
  | _ => none

theorem Answer.block?_eq_some {a : Except Fault Answer} {b : Block} :
    block? a = some b ↔ a = .ok (.block b) := by
  constructor
  · intro h
    rcases a with f | r | b' <;> cases h
    rfl
  · rintro rfl
    rfl

namespace Job

def batch : Job → List (Nat × Transaction)
  | .single _ => []
  | .block batch _ _ => batch

def height? : Job → Option Nat
  | .single _ => none
  | .block _ height _ => some height

def operations : Job → List Operation
  | .single tx => [tx.operation]
  | .block batch height timestamp =>
    .setBlock ⟨timestamp, height⟩ :: batch.map fun q => q.2.operation

/-- What becomes of the queued transactions of a job. -/
def settles (m : Machine) : Job → List (Nat × Except Fault Receipt)
  | .single _ => []
  | .block batch height timestamp => settlements { m with block := ⟨timestamp, height⟩ } batch

/-- The block that a job makes whose transactions have become `settled`. -/
def sealed (height : Nat) (timestamp : Int) (settled : List (Nat × Except Fault Receipt))
    (root : String) : Block :=
  ⟨height, timestamp, root, settled.filterMap fun s => s.2.toOption⟩

/-- The answer of a job that runs on `m`. -/
def answer (m : Machine) : Job → Except Fault Answer
  | .single tx => (tx.outcome none m).map .receipt
  | .block batch height timestamp =>
    (m.perform (operations (.block batch height timestamp))).stateRoot.map fun root =>
      .block (sealed height timestamp (settles m (.block batch height timestamp)) root)

end Job

/-- What takes effect on a chain: a job that has the lock, or an operation that the host makes
on the machine itself. -/
inductive Deed where
  | job (job : Job)
  | host (op : Operation)

namespace Deed

def job? : Deed → Option Job
  | .job j => some j
  | .host _ => none

def host? : Deed → Option Operation
  | .job _ => none
  | .host op => some op

def operations : Deed → List Operation
  | .job j => j.operations
  | .host op => [op]

end Deed

/-- The state of a run, with all settlements and all answers so far. -/
structure Ran where
  machine : Machine
  settled : List (Nat × Except Fault Receipt) := []
  answers : List (Except Fault Answer) := []

def Ran.after (r : Ran) : Deed → Ran
  | .job job => ⟨r.machine.perform job.operations, r.settled ++ job.settles r.machine,
      r.answers ++ [job.answer r.machine]⟩
  | .host op => { r with machine := op.after r.machine }

/-- One deed after the other, from a machine `m`. -/
def serial (m : Machine) (deeds : List Deed) : Ran := deeds.foldl Ran.after ⟨m, [], []⟩

variable {m : Machine} {deeds : List Deed}

theorem serial_append (m : Machine) (deeds : List Deed) (deed : Deed) :
    serial m (deeds ++ [deed]) = (serial m deeds).after deed := by
  simp [serial]

theorem serial_machine (m : Machine) (deeds : List Deed) :
    (serial m deeds).machine = m.perform (deeds.flatMap Deed.operations) := by
  induction deeds using List.reverseRecOn with
  | nil => rfl
  | append_singleton deeds deed ih =>
    rw [serial_append, List.flatMap_append]
    unfold Machine.perform at ih ⊢
    rw [List.foldl_append, ← ih]
    cases deed <;> simp [Ran.after, Deed.operations, Machine.perform]

theorem serial_settled (m : Machine) (deeds : List Deed) :
    (serial m deeds).settled.map Prod.fst =
      ((deeds.filterMap Deed.job?).flatMap Job.batch).map Prod.fst := by
  induction deeds using List.reverseRecOn with
  | nil => rfl
  | append_singleton deeds deed ih =>
    rw [serial_append]
    cases deed with
    | host op => simpa [Ran.after, Deed.job?, List.filterMap_cons] using ih
    | job job =>
      have hids : (job.settles (serial m deeds).machine).map Prod.fst = job.batch.map Prod.fst := by
        cases job with
        | single tx => rfl
        | block batch height timestamp => exact map_settlements _ batch
      simp [Ran.after, Deed.job?, ih, hids]

theorem length_answers (m : Machine) (deeds : List Deed) :
    (serial m deeds).answers.length = (deeds.filterMap Deed.job?).length := by
  induction deeds using List.reverseRecOn with
  | nil => rfl
  | append_singleton deeds deed ih =>
    rw [serial_append]
    cases deed <;> simp [Ran.after, Deed.job?, ih]

theorem Machine.Reachable.perform (h : m.Reachable) (ops : List Operation) :
    (m.perform ops).Reachable :=
  h.perform_keeps (P := Machine.Reachable) h fun op _ _ reachable _ => reachable.after op

theorem Machine.Reachable.serial (h : m.Reachable) (deeds : List Deed) :
    (serial m deeds).machine.Reachable := by
  rw [serial_machine]
  exact h.perform _

/-- A block is made of what became of its transactions, unless an account is too large for a
root. -/
theorem Job.answer_block (h : m.Reachable) (batch : List (Nat × Transaction)) (height : Nat)
    (timestamp : Int) :
    (∃ root, Job.answer m (.block batch height timestamp) =
        .ok (.block (sealed height timestamp (settles m (.block batch height timestamp)) root))) ∨
      ∃ f, Job.answer m (.block batch height timestamp) = .error f ∧ f.Oversize := by
  have hroot := Machine.stateRoot_fails (h.perform (operations (.block batch height timestamp)))
  unfold Job.answer
  simp only
  cases hr : (m.perform (operations (.block batch height timestamp))).stateRoot with
  | error f => exact .inr ⟨f, rfl, hroot f hr⟩
  | ok root => exact .inl ⟨root, rfl⟩

/-- Only a job that asks for a block is answered with one, and it is the one that was asked
for. -/
theorem Job.answer_eq_block {job : Job} {b : Block} (h : job.answer m = .ok (.block b)) :
    ∃ batch root, job = .block batch b.height b.timestamp ∧
      b = sealed b.height b.timestamp (job.settles m) root := by
  cases job with
  | single tx =>
    unfold Job.answer at h
    simp only at h
    cases hout : tx.outcome none m <;> rw [hout] at h <;> cases h
  | block batch height timestamp =>
    unfold Job.answer at h
    simp only at h
    cases hroot : (m.perform (operations (.block batch height timestamp))).stateRoot with
    | error f =>
      rw [hroot] at h
      cases h
    | ok root =>
      rw [hroot] at h
      cases h
      exact ⟨batch, root, rfl, rfl⟩

/-- Each job of a serial run is answered, and settles its transactions one after the other, on a
machine that there can be. -/
theorem serial_ran {t : Nat} {job : Job} (h : (deeds.filterMap Deed.job?)[t]? = some job) :
    ∃ m' : Machine, (m.Reachable → m'.Reachable) ∧
      (serial m deeds).answers[t]? = some (job.answer m') ∧
      (job.settles m').IsInfix (serial m deeds).settled := by
  induction deeds using List.reverseRecOn with
  | nil => cases h
  | append_singleton deeds deed ih =>
    have hlength := length_answers m deeds
    rw [serial_append]
    cases deed with
    | host op =>
      simp only [List.filterMap_append, List.filterMap_cons, Deed.job?, List.filterMap_nil,
        List.append_nil] at h
      exact ih h
    | job last =>
      simp only [List.filterMap_append, List.filterMap_cons, Deed.job?, List.filterMap_nil] at h
      rcases Nat.lt_or_ge t (deeds.filterMap Deed.job?).length with ht | ht
      · rw [List.getElem?_append_left ht] at h
        obtain ⟨m', hm', hanswer, hsettles⟩ := ih h
        refine ⟨m', hm', ?_, hsettles.trans (List.prefix_append ..).isInfix⟩
        exact (List.getElem?_append_left (hlength ▸ ht)).trans hanswer
      · have hlast : t = (deeds.filterMap Deed.job?).length := by
          have hbound := (List.getElem?_eq_some_iff.1 h).1
          simp only [List.length_append, List.length_singleton] at hbound
          omega
        rw [hlast, List.getElem?_concat_length, Option.some.injEq] at h
        subst h
        refine ⟨_, fun reachable => reachable.serial deeds, ?_, (List.suffix_append ..).isInfix⟩
        rw [hlast, ← hlength]
        exact List.getElem?_concat_length

/-! ## Machines that are the same untold -/

section Untold

variable {m m' : Machine}

theorem Operation.after_congr (h : m.untold = m'.untold) (op : Operation) :
    (op.after m).untold = (op.after m').untold := by
  rw [op.untold_after m, op.untold_after m', h]

theorem Machine.perform_congr (h : m.untold = m'.untold) (ops : List Operation) :
    (m.perform ops).untold = (m'.perform ops).untold := by
  induction ops generalizing m m' with
  | nil => exact h
  | cons op rest ih => exact ih (op.after_congr h)

theorem Chain.applyTx_blind (submission : Option Nat) (tx : Transaction) :
    Host.Blind (applyTx submission tx) := by
  intro earlier m
  cases tx with
  | call sender target fn args value gas =>
    have hcall := Machine.call_blind sender target fn args (value.getD 0) gas earlier m
    simp only [applyTx, bind, EStateM.bind, hcall]
    cases Machine.call sender target fn args (value.getD 0) gas m <;> rfl
  | deploy sender code args value gas =>
    have hdeploy := Machine.deploy_blind code args sender (value.getD 0) gas earlier m
    simp only [applyTx, hdeploy]
    cases Machine.deploy code args sender (value.getD 0) gas m with
    | ok a m' => rfl
    | error f m' => cases f <;> rfl

/-- Running a transaction does to the machine what its operation does. -/
theorem Chain.applyTx_left (submission : Option Nat) (tx : Transaction) (m : Machine) :
    Host.left (applyTx submission tx m) = tx.operation.after m := by
  cases tx with
  | call sender target fn args value gas =>
    simp only [applyTx, bind, EStateM.bind, Transaction.operation, Operation.after]
    cases Machine.call sender target fn args (value.getD 0) gas m <;> rfl
  | deploy sender code args value gas =>
    simp only [applyTx, Transaction.operation, Operation.after]
    cases Machine.deploy code args sender (value.getD 0) gas m with
    | ok a m' => rfl
    | error f m' => cases f <;> rfl

theorem Transaction.outcome_untold (submission : Option Nat) (tx : Transaction) (m : Machine) :
    tx.outcome submission m = tx.outcome submission m.untold := by
  have hblind := Chain.applyTx_blind submission tx m.trail m.untold
  rw [Machine.over_untold] at hblind
  unfold outcome
  rw [hblind]
  cases Chain.applyTx submission tx m.untold <;> rfl

theorem Transaction.outcome_congr (h : m.untold = m'.untold) (submission : Option Nat)
    (tx : Transaction) : tx.outcome submission m = tx.outcome submission m' := by
  rw [tx.outcome_untold submission m, tx.outcome_untold submission m', h]

theorem settlements_congr (h : m.untold = m'.untold) (batch : List (Nat × Transaction)) :
    settlements m batch = settlements m' batch := by
  induction batch generalizing m m' with
  | nil => rfl
  | cons q rest ih =>
    simp only [settlements, q.2.outcome_congr h, ih (q.2.operation.after_congr h)]

theorem Machine.untold_withBlock (h : m.untold = m'.untold) (b : BlockContext) :
    { m with block := b }.untold = { m' with block := b }.untold :=
  congrArg (fun m : Machine => { m with block := b }) h

theorem Job.settles_congr (h : m.untold = m'.untold) (job : Job) :
    job.settles m = job.settles m' := by
  cases job with
  | single tx => rfl
  | block batch height timestamp => exact settlements_congr (Machine.untold_withBlock h _) batch

theorem Machine.stateRoot_congr (h : m.untold = m'.untold) : m.stateRoot = m'.stateRoot := by
  show m.untold.stateRoot = m'.untold.stateRoot
  rw [h]

theorem Job.answer_congr (h : m.untold = m'.untold) (job : Job) : job.answer m = job.answer m' := by
  cases job with
  | single tx =>
    unfold answer
    simp only [tx.outcome_congr h]
  | block batch height timestamp =>
    unfold answer
    simp only
    rw [Machine.stateRoot_congr (Machine.perform_congr h _), Job.settles_congr h]

end Untold

/-! ## Running a job of a chain -/

namespace Chain

/-- A transaction of a block leaves what its operation leaves, but for what is told. -/
theorem Batch.untold_step (b : Batch) (q : Nat × Transaction) :
    (b.step q).machine.untold = (q.2.operation.after b.machine).untold := by
  rw [← applyTx_left (some q.1)]
  unfold Batch.step
  cases applyTx (some q.1) q.2 b.machine <;> rfl

theorem Batch.settled_step (b : Batch) (q : Nat × Transaction) :
    (b.step q).settled = b.settled ++ [(q.1, q.2.outcome (some q.1) b.machine)] := by
  unfold Batch.step Transaction.outcome
  cases applyTx (some q.1) q.2 b.machine <;> rfl

theorem Batch.receipts_step (b : Batch) (q : Nat × Transaction) :
    (b.step q).receipts = b.receipts ++ (q.2.outcome (some q.1) b.machine).toOption.toList := by
  unfold Batch.step Transaction.outcome
  cases applyTx (some q.1) q.2 b.machine <;> simp [Except.toOption]

theorem Batch.foldl_step (b : Batch) (batch : List (Nat × Transaction)) :
    (batch.foldl step b).machine.untold =
        (b.machine.perform (batch.map fun q => q.2.operation)).untold ∧
      (batch.foldl step b).settled = b.settled ++ settlements b.machine batch ∧
      (batch.foldl step b).receipts =
        b.receipts ++ (settlements b.machine batch).filterMap fun s => s.2.toOption := by
  induction batch generalizing b with
  | nil => simp [settlements, Machine.perform]
  | cons q rest ih =>
    obtain ⟨hmachine, hsettled, hreceipts⟩ := ih (b.step q)
    have hstep := b.untold_step q
    have hrest := settlements_congr hstep rest
    refine ⟨?_, ?_, ?_⟩
    · exact hmachine.trans (Machine.perform_congr hstep _)
    · rw [List.foldl_cons, hsettled, b.settled_step, hrest]
      simp [settlements]
    · rw [List.foldl_cons, hreceipts, b.receipts_step, hrest]
      cases h : q.2.outcome (some q.1) b.machine <;> simp [settlements, h, Except.toOption]

/-- The answers that are there and those that a block in `sealing` is going to be. -/
def told (c : Chain) : List (Ticket × Except Fault Answer) :=
  c.answers ++ c.sealing.map fun p => (p.1, .ok (.block p.2))

/-- The blocks of a chain, in the order in which they were sealed. -/
def blocks (c : Chain) : List Block := c.answers.filterMap fun p => Answer.block? p.2

/-- Running a job runs its operations, settles its transactions, and either answers or leaves
the block that its answer is going to be. -/
structure Runs (c : Chain) (t : Ticket) (job : Job) (c' : Chain) : Prop where
  machine : c'.machine.untold = (c.machine.perform job.operations).untold
  settled : c'.settled = c.settled ++ job.settles c.machine
  queue : c'.queue = c.queue
  height : c'.height = c.height
  submissions : c'.submissions = c.submissions
  answered : (∃ b, job.answer c.machine = .ok (.block b) ∧
        c'.answers = c.answers ∧ c'.sealing = c.sealing ++ [(t, b)]) ∨
      Answer.block? (job.answer c.machine) = none ∧
        c'.answers = c.answers ++ [(t, job.answer c.machine)] ∧ c'.sealing = c.sealing

theorem runJob_runs (c : Chain) (t : Ticket) (job : Job) : c.Runs t job (c.runJob t job) := by
  cases job with
  | single tx =>
    have hleft := applyTx_left none tx c.machine
    have hanswer : Job.answer c.machine (.single tx) = (tx.outcome none c.machine).map .receipt := rfl
    unfold Transaction.outcome at hanswer
    unfold runJob
    simp only
    cases hrun : applyTx none tx c.machine with
    | ok r m | error f m =>
      rw [hrun] at hleft hanswer
      refine ⟨congrArg Machine.untold hleft, (List.append_nil _).symm, rfl, rfl, rfl, .inr ?_⟩
      rw [hanswer]
      exact ⟨rfl, rfl, rfl⟩
  | block batch height timestamp =>
    obtain ⟨hmachine, hsettled, hreceipts⟩ :=
      Batch.foldl_step { machine := { c.machine with block := ⟨timestamp, height⟩ } } batch
    have hroot := Machine.stateRoot_congr hmachine
    unfold runJob
    simp only
    rw [hroot]
    have hanswer : Job.answer c.machine (.block batch height timestamp) =
        (({ c.machine with block := ⟨timestamp, height⟩ } : Machine).perform
          (batch.map fun q => q.2.operation)).stateRoot.map fun root => .block
            (Job.sealed height timestamp (Job.settles c.machine (.block batch height timestamp)) root) :=
      rfl
    cases hr : (({ c.machine with block := ⟨timestamp, height⟩ } : Machine).perform
        (batch.map fun q => q.2.operation)).stateRoot with
    | error f =>
      rw [hr] at hanswer
      refine ⟨hmachine, congrArg (c.settled ++ ·) hsettled, rfl, rfl, rfl, .inr ?_⟩
      rw [hanswer]
      exact ⟨rfl, rfl, rfl⟩
    | ok root =>
      rw [hr] at hanswer
      refine ⟨hmachine, congrArg (c.settled ++ ·) hsettled, rfl, rfl, rfl,
        .inl ⟨_, hanswer, rfl, ?_⟩⟩
      rw [hreceipts]
      rfl

end Chain
end ContractVM
