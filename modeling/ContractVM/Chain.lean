/-
A chain of blocks over one machine. Transactions are queued and run when the
next block is made, or at once outside any block. Blocks and single
transactions take turns under one lock, in the order in which they were asked
for.

Making a block has three parts that other requests may come between: `tick`
takes the queue and fixes height and time, `runNext` runs the transactions once
the lock is there, and `finish` moves the height on.
-/
import ContractVM.Machine.Basic
import ContractVM.Mutex

namespace ContractVM

inductive Transaction where
  | deploy (sender : Address) (code : ContractCode) (args : Args) (value gas : Option Int)
  | call (sender target : Address) (fn : String) (args : Args) (value gas : Option Int)

def Transaction.kind : Transaction → String
  | .deploy .. => "deploy"
  | .call .. => "call"

def Transaction.sender : Transaction → Address
  | .deploy sender .. => sender
  | .call sender .. => sender

inductive DeployOutcome where
  | deployed (address : Address)
  | failed (failure : Failure)
deriving Repr, DecidableEq

/-- What became of a transaction; a queued one is known by its submission. -/
inductive Receipt where
  | deploy (submission : Option Nat) (outcome : DeployOutcome)
  | call (submission : Option Nat) (result : CallResult)
deriving DecidableEq

structure Block where
  height : Nat
  timestamp : Int
  stateRoot : String
  receipts : List Receipt
deriving DecidableEq

/-- Work that needs the lock. -/
inductive Job where
  | single (tx : Transaction)
  | block (batch : List (Nat × Transaction)) (height : Nat) (timestamp : Int)

inductive Answer where
  | receipt (r : Receipt)
  | block (b : Block)
deriving DecidableEq

structure Chain where
  machine : Machine
  /-- Submissions that no block has taken. -/
  queue : List (Nat × Transaction) := []
  height : Nat := 0
  /-- The number of the next submission. -/
  submissions : Nat := 0
  jobs : Exclusive Job := {}
  /-- Blocks whose transactions have run and whose height is not taken over. -/
  sealing : List (Ticket × Block) := []
  /-- Submissions whose receipt is known, in order. -/
  settled : List (Nat × Except Fault Receipt) := []
  answers : List (Ticket × Except Fault Answer) := []

namespace Chain

def start (settings : Settings) : Chain := { machine := .start settings }

instance : Inhabited Chain := ⟨start .standard⟩

def note (c : Chain) (step : Step) : Chain := { c with machine := c.machine.note step }

def pending (c : Chain) : Nat := c.queue.length

/-! ## Requests -/

/-- Queue a transaction for the next block. -/
def submit (c : Chain) (tx : Transaction) : Nat × Chain :=
  let id := c.submissions
  (id, note { c with queue := c.queue ++ [(id, tx)], submissions := id + 1 }
    (.queued id tx.kind tx.sender))

/-- Ask to run a transaction outside any block. -/
def execute (c : Chain) (tx : Transaction) : Ticket × Chain :=
  let (t, jobs) := c.jobs.request (.single tx)
  (t, { c with jobs := jobs })

/-- Ask for a block at time `now`. The queue is taken before the time is looked
at: a time that is no integer loses it. -/
def tick (c : Chain) (now : Number) : Except Fault Ticket × Chain :=
  let batch := c.queue
  let c := { c with queue := [] }
  match now.toInt? with
  | none => (.error (.notIntegral now), c)
  | some timestamp =>
    let c := c.note (.tickStarted (c.height + 1) batch.length)
    let (t, jobs) := c.jobs.request (.block batch (c.height + 1) timestamp)
    (.ok t, { c with jobs := jobs })

/-! ## Running -/

/-- Run one transaction. A refused deployment is a receipt, not a fault. -/
def applyTx (submission : Option Nat) : Transaction → Host Receipt
  | .call sender target fn args value gas => do
    return .call submission (← Machine.call sender target fn args (value.getD 0) gas)
  | .deploy sender code args value gas => fun m =>
    match Machine.deploy code args sender (value.getD 0) gas m with
    | .ok a m' => .ok (.deploy submission (.deployed a)) m'
    | .error (.refused r) m' => .ok (.deploy submission (.failed r.report)) m'
    | .error fault m' => .error fault m'

/-- What running the transactions of a block leaves. -/
structure Batch where
  machine : Machine
  receipts : List Receipt := []
  settled : List (Nat × Except Fault Receipt) := []

/-- Run one queued transaction: it gets a receipt or is rejected. -/
def Batch.step (b : Batch) (q : Nat × Transaction) : Batch :=
  match applyTx (some q.1) q.2 b.machine with
  | .ok r m => ⟨m, b.receipts ++ [r], b.settled ++ [(q.1, .ok r)]⟩
  | .error fault m => ⟨m.note (.rejected q.1 fault), b.receipts, b.settled ++ [(q.1, .error fault)]⟩

def answer (c : Chain) (t : Ticket) (a : Except Fault Answer) : Chain :=
  { c with answers := c.answers ++ [(t, a)] }

/-- The body of a job. -/
def runJob (c : Chain) (t : Ticket) : Job → Chain
  | .single tx =>
    match applyTx none tx c.machine with
    | .ok r m => answer { c with machine := m } t (.ok (.receipt r))
    | .error fault m => answer { c with machine := m } t (.error fault)
  | .block batch height timestamp =>
    let ready : Batch := { machine := { c.machine with block := ⟨timestamp, height⟩ } }
    let done := batch.foldl Batch.step ready
    let c := { c with machine := done.machine, settled := c.settled ++ done.settled }
    match done.machine.stateRoot with
    | .error fault => c.answer t (.error fault)
    | .ok root =>
      { c with sealing := c.sealing ++ [(t, ⟨height, timestamp, root, done.receipts⟩)] }

/-- Run the job that has the lock. -/
def runNext (c : Chain) : Chain :=
  match c.jobs.next? with
  | none => c
  | some (t, job) => { c.runJob t job with jobs := c.jobs.complete t }

/-- Finish the block that has waited longest. -/
def finish (c : Chain) : Chain :=
  match c.sealing with
  | [] => c
  | (t, b) :: rest =>
    answer (note { c with sealing := rest, height := b.height }
      (.blockSealed b.height b.stateRoot b.receipts.length)) t (.ok (.block b))

/-- Take a step `n` times. -/
def repeated (step : Chain → Chain) : Nat → Chain → Chain
  | 0, c => c
  | n + 1, c => repeated step n (step c)

/-- Everything that can go on goes on until nothing is left: first the jobs,
each of which leaves at most one block to finish, then the blocks. -/
def drain (c : Chain) : Chain :=
  let c := repeated runNext c.jobs.tasks.length c
  repeated finish c.sealing.length c

/-- The answer to a request. -/
def answer? (c : Chain) (t : Ticket) : Option (Except Fault Answer) := c.answers.lookup t

end Chain
end ContractVM
