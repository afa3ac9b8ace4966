/-
The machine: contracts, storage, the log of events and the journal, under the
operations a host has. Every operation either commits, and then appends exactly
one entry to the journal, or leaves all four as they were.

The entry is encoded before anything is merged, so that a transaction that
cannot be written down is undone like any other.
-/
import ContractVM.Event.Query
import ContractVM.Exec.Instr
import ContractVM.Hash.Keccak
import ContractVM.Journal.Basic

namespace ContractVM

structure Machine where
  /-- Hash of addresses and state roots. -/
  hash : Bytes → Bytes
  settings : Settings
  registry : Registry
  storage : Storage
  log : EventLog
  locks : Locks
  journal : Journal
  block : BlockContext
  trail : Trail

/-- What a call gives its host. -/
inductive CallResult where
  | committed (value : Option Value) (gasUsed : Int) (events : List LoggedEvent)
  | reverted (failure : Failure) (gasUsed : Int)
deriving DecidableEq

abbrev Host := EStateM Fault Machine

namespace Machine

def start (settings : Settings) (hash : Bytes → Bytes := Keccak.hash) : Machine where
  hash := hash
  settings := settings
  registry := .empty
  storage := .empty
  log := .empty
  locks := []
  journal := []
  block := {}
  trail := []

instance : Inhabited Machine := ⟨start .standard⟩

/-! ## Looking -/

def stateRoot (m : Machine) : Except Fault String := ContractVM.stateRoot m.hash m.storage.dump

def readStorage (m : Machine) (a : Address) (key : String) : Value := m.storage.readPersisted a key

def balanceOf (m : Machine) (a : Address) : Int := m.storage.balanceOf a

def note (m : Machine) (step : Step) : Machine := { m with trail := step :: m.trail }

def environment (m : Machine) : Environment :=
  ⟨m.registry, m.settings.maxCallDepth, m.block⟩

/-! ## Committing -/

/-- A journal entry that is ready, and the addresses it retires. -/
structure Staged where
  entry : Bytes
  retired : List Address

/-- Encode what the one open layer and the buffers of a frame would commit. -/
def stage (storage : Storage) (terminations : List Address) (events : List LoggedEvent) :
    Except Fault Staged :=
  match storage.staged with
  | .error e => .error (.misuse e)
  | .ok delta =>
    let retired := terminations.eraseDups
    match Codec.encodeEntry
        ⟨{ delta with destroyed := delta.destroyed ++ retired }, events⟩ with
    | .error e => .error e
    | .ok entry => .ok ⟨entry, retired⟩

/-- Take a contract and what it holds out of the machine. -/
def retireContract (m : Machine) (a : Address) : Except Misuse Machine := do
  let registry ← m.registry.terminate a
  let storage ← m.storage.destroy a
  return { m with registry := registry, storage := storage }

/-- Finish a commit once its layer is merged: retire, then write the journal. -/
def sealEntry (m : Machine) (s : Staged) : Except Misuse Machine := do
  let m ← s.retired.foldlM retireContract m
  return { m with journal := (m.journal.push s.entry).2 }

/-- Merge the one open layer of `storage` and finish the commit. -/
def commitStaged (m : Machine) (storage : Storage) (s : Staged) : Except Misuse Machine := do
  let (_, storage) ← storage.commit
  sealEntry { m with storage := storage } s

/-! ## Running a transaction -/

/-- The first frame of a transaction. -/
def topFrame (m : Machine) (r : Request) (meter : GasMeter) : Frame :=
  Frame.start 0 none (r.context m.block) r.flags meter

/-- The site where the first frame begins. -/
def topSite (m : Machine) (f : Frame) : Site :=
  ⟨World.enter ⟨m.storage, m.locks, m.trail, 0⟩ f, f, ∅⟩

/-- The machine after its first frame has ended at `t`, with the locks of the
frame released. -/
def leave (m : Machine) (t : Site) : Machine :=
  let world := (t.unlock t.frame.tokens).world
  { m with storage := world.storage, locks := world.locks, trail := world.trail }

/-- Undo the transaction that ended at `t` with a fault. -/
def settleTop (m : Machine) (t : Site) (fault : Fault) :
    EStateM.Result Fault Machine (Outcome × List LoggedEvent) :=
  match t.settle fault with
  | .ok outcome t' => .ok (outcome, []) (m.leave t')
  | .error fault' t' => .error fault' (m.leave t')

/-- Commit the first frame: stage, merge, seal, and log its events. -/
def commitTop (m : Machine) (t : Site) (value : Option Value) :
    EStateM.Result Fault Machine (Outcome × List LoggedEvent) :=
  match m.log.staged t.frame with
  | .error e => m.settleTop t (.misuse e)
  | .ok events =>
    match stage t.world.storage t.frame.terminations events with
    | .error fault => m.settleTop t fault
    | .ok staged =>
      match commitStaged m t.world.storage staged with
      | .error e => .error (.misuse e) (m.leave t)
      | .ok committed =>
        let (logged, log, f) := m.log.flush t.frame
        match f.transition .done with
        | .error e => .error (.misuse e) (m.leave t)
        | .ok f =>
          let t := Site.note { (t.withStorage committed.storage) with frame := f }
            (.committed f.id f.meter.left)
          .ok (.committed value f.meter.left, logged) (leave { committed with log := log } t)

/-- Run a request as a transaction of its own. -/
def runTop (r : Request) : Host (Outcome × List LoggedEvent) := fun m =>
  match GasMeter.ofBudget? r.gas with
  | none => .error .negativeBudget m
  | some meter =>
    match Exec.attempt (runBody (nesting r.gas)) m.environment r (m.topSite (m.topFrame r meter)) with
    | .ok value t => m.commitTop t value
    | .error fault t => m.settleTop t fault

/-! ## Operations of the host -/

/-- A transaction cannot have a negative value or gas limit. -/
def spendable (operation : String) (value gas : Int) : Except Misuse Unit :=
  if value < 0 then .error (.negativeAmount operation "value" value)
  else if gas < 0 then .error (.negativeAmount operation "gas" gas)
  else .ok ()

def topFlags (constructing : Bool) : FrameFlags := ⟨false, constructing, false⟩

/-- The request of a transaction on the contract at `a`. -/
def topRequest (sender a : Address) (selector : Selector) (args : Args) (value gas : Int) :
    Request where
  caller := sender
  origin := sender
  codeAddress := a
  storageAddress := a
  selector := selector
  args := args
  value := value
  transfers := true
  gas := gas
  flags := topFlags (decide (selector = .construct))

/-- Run the constructors of the contract that was just registered at `a`. A
deployment that does not commit leaves the address retired. -/
def construct (code : ContractCode) (c : Contract) (a deployer : Address) (args : Args)
    (value gas : Int) : Host Address := fun m =>
  match runTop (topRequest deployer a .construct args value gas) m with
  | .error fault m' => .error fault { m' with registry := m'.registry.retire a }
  | .ok (.reverted cause _, _) m' =>
    .error (.refused (.constructorFailed code.name cause.failure))
      (note { m' with registry := m'.registry.retire a } (.deployReverted code.name a cause))
  | .ok (.committed _ left, _) m' =>
    .ok a (note { m' with log := m'.log.declare a c.events.values }
      (.deployed code.name a (gas - left)))

/-- Deploy a contract and give its address. -/
def deploy (code : ContractCode) (args : Args := ∅) (deployer : Address := Address.zero)
    (value : Int := 0) (gas : Option Int := none) : Host Address := fun m =>
  let gas := gas.getD m.settings.deployGas
  match spendable "deploy" value gas with
  | .error e => .error (.misuse e) m
  | .ok () =>
    match m.registry.nextAddress m.hash deployer with
    | (.error fault, registry) => .error fault { m with registry := registry }
    | (.ok a, registry) =>
      match registry.register a code with
      | .error e => .error (.refused e) { m with registry := registry }
      | .ok (c, registry) =>
        construct code c a deployer args value gas { m with registry := registry }

def call (sender target : Address) (fn : String) (args : Args := ∅) (value : Int := 0)
    (gas : Option Int := none) : Host CallResult := fun m =>
  let gas := gas.getD m.settings.defaultGas
  match spendable "call" value gas with
  | .error e => .error (.misuse e) m
  | .ok () =>
    match runTop (topRequest sender target (.named fn) args value gas) m with
    | .error fault m' => .error fault m'
    | .ok (.reverted cause left, _) m' =>
      .ok (.reverted cause.failure (gas - left))
        (m'.note (.callReverted target fn (gas - left) cause))
    | .ok (.committed v left, events) m' =>
      .ok (.committed v (gas - left) events)
        (m'.note (.callCommitted target fn (gas - left) events.length))

/-- Commit a change that the host makes to the storage, on a layer of its own. -/
def commitHost (change : Storage → Except Misuse Storage) (terminations : List Address) :
    Host Unit := fun m =>
  match change m.storage.snapshot with
  | .error e => .error (.misuse e) m
  | .ok storage =>
    match stage storage terminations [] with
    | .error fault => .error fault m
    | .ok staged =>
      match commitStaged m storage staged with
      | .error e => .error (.misuse e) m
      | .ok m' => .ok () m'

/-- Make value for an account. -/
def fund (a : Address) (amount : Int) : Host Unit := fun m =>
  if amount < 0 then .error (.misuse .negativeFund) m
  else commitHost (fun s => s.setBalance a (s.balanceOf a + amount)) [] m

/-- Move everything `a` owns to a beneficiary. -/
def sweep (a beneficiary : Address) (s : Storage) : Except Misuse Storage := do
  let s ← s.setBalance beneficiary (s.balanceOf beneficiary + s.balanceOf a)
  s.setBalance a 0

/-- Retire a contract; the empty beneficiary is none. -/
def terminate (a : Address) (beneficiary : Address := "") : Host Unit := fun m =>
  if (m.registry.find? a).isNone then .error (.misuse (.unknownContract a)) m
  else
    match commitHost (fun s => if beneficiary = "" then .ok s else sweep a beneficiary s) [a] m with
    | .error fault m' => .error fault m'
    | .ok () m' => .ok () (m'.note (.terminated a))

def setBlock (b : BlockContext) : Host Unit := fun m => .ok () { m with block := b }

def queryEvents (m : Machine) (q : EventFilter) : Except FilterError EventCursor := m.log.query q

end Machine
end ContractVM
