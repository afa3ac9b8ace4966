/-
Storage kept the plain way: a stack of complete copies.

Every level holds all slots and balances written out, the newest first, and a read
looks at the topmost copy only.  A snapshot copies it, a commit drops the copy
below, a rollback drops the copy above.  A level also lists the writes made since it
was opened, as far as they survive: a level that is committed passes its list down,
one that is rolled back takes its list with it.

`StorageOp` is what may be asked of a storage, and `trace` what it answers to one
request after the other.  A request that fails leaves the storage as it is.
-/
import ContractVM.Proofs.Storage.Writes
import ContractVM.Storage.Dump

namespace ContractVM

/-! ## Complete copies -/

/-- All slots by address and key, and all balances by address. -/
structure Copy where
  slots : List ((Address × String) × Value)
  balances : List (Address × Int)

namespace Copy

def empty : Copy := ⟨[], []⟩

def slot? (c : Copy) (a : Address) (key : String) : Option Value := c.slots.lookup (a, key)

def balance? (c : Copy) (a : Address) : Option Int := c.balances.lookup a

def put (c : Copy) : Write → Copy
  | .slot a k v => { c with slots := ((a, k), v) :: c.slots }
  | .balance a n => { c with balances := (a, n) :: c.balances }

def erase (c : Copy) (a : Address) : Copy where
  slots := c.slots.filter (·.1.1 ≠ a)
  balances := c.balances.filter (·.1 ≠ a)

def apply (c : Copy) (d : Delta) : Copy :=
  d.destroyed.foldl erase
    ((d.slots.map (fun w => Write.slot w.address w.key w.value) ++
      d.balances.map fun b => Write.balance b.address b.balance).foldl put c)

/-- The keys written at one address, in order. -/
def keys (c : Copy) (a : Address) : List String :=
  Text.sort ((c.slots.filter (·.1.1 = a)).map (·.1.2)).eraseDups

def addresses (c : Copy) : List Address :=
  Text.sort (c.slots.map (·.1.1) ++ c.balances.map (·.1)).eraseDups

def account (c : Copy) (a : Address) : Account where
  address := a
  balance := (c.balance? a).getD 0
  slots := (c.keys a).map fun k => (k, (c.slot? a k).getD (.int 0))

def dump (c : Copy) : List Account := c.addresses.map c.account

end Copy

/-- A copy that is open, and the surviving writes since it was opened. -/
structure Opened where
  copy : Copy
  writes : List Write

/-- The persisted copy and those above it, the topmost first. -/
structure Copies where
  bottom : Copy
  opened : List Opened

namespace Copies

def empty : Copies := ⟨.empty, []⟩

def depth (c : Copies) : Nat := c.opened.length

def topOf (bottom : Copy) : List Opened → Copy
  | [] => bottom
  | o :: _ => o.copy

def top (c : Copies) : Copy := topOf c.bottom c.opened

def peek? (c : Copies) (a : Address) (key : String) : Option Value := c.top.slot? a key

def has (c : Copies) (a : Address) (key : String) : Bool := (c.peek? a key).isSome

def read (c : Copies) (a : Address) (key : String) : Value := (c.peek? a key).getD (.int 0)

def readPersisted (c : Copies) (a : Address) (key : String) : Value :=
  (c.bottom.slot? a key).getD (.int 0)

def balanceOf (c : Copies) (a : Address) : Int := (c.top.balance? a).getD 0

def dump (c : Copies) : List Account := c.bottom.dump

def put (c : Copies) (w : Write) : Except Misuse Copies :=
  match c.opened with
  | [] => .error .outsideSnapshot
  | o :: below => .ok { c with opened := ⟨o.copy.put w, o.writes ++ [w]⟩ :: below }

def classify (c : Copies) (a : Address) (key : String) : WriteClass :=
  if c.has a key then .update else .new

def write (c : Copies) (a : Address) (key : String) (v : Value) (m : GasMeter) :
    Except Fault (WriteClass × Copies × GasMeter) :=
  match c.put (.slot a key v) with
  | .error e => .error (.misuse e)
  | .ok c' =>
    match m.charge (c.classify a key).fee with
    | .error cause => .error (.raised cause false)
    | .ok m' => .ok (c.classify a key, c', m')

def setBalance (c : Copies) (a : Address) (n : Int) : Except Misuse Copies := c.put (.balance a n)

def transfer (c : Copies) (source target : Address) (amount : Int) : Except Fault Copies :=
  if amount < 0 then .error (.raised (.negativeTransfer amount) false)
  else if amount = 0 then .ok c
  else if c.balanceOf source < amount then
    .error (.raised (.insufficient source (c.balanceOf source) amount) false)
  else
    match c.setBalance source (c.balanceOf source - amount) with
    | .error e => .error (.misuse e)
    | .ok paid =>
      match paid.setBalance target (paid.balanceOf target + amount) with
      | .error e => .error (.misuse e)
      | .ok c' => .ok c'

def snapshot (c : Copies) : Copies := { c with opened := ⟨c.top, []⟩ :: c.opened }

/-- The top copy takes the place of the one below. -/
def commit (c : Copies) : Except Misuse (Option Delta × Copies) :=
  match c.opened with
  | [] => .error .commitWithoutSnapshot
  | [last] => .ok (some (Layer.ofWrites last.writes).delta, ⟨last.copy, []⟩)
  | top :: next :: below =>
    .ok (none, { c with opened := ⟨top.copy, next.writes ++ top.writes⟩ :: below })

def rollback (c : Copies) : Except Misuse Copies :=
  match c.opened with
  | [] => .error .rollbackWithoutSnapshot
  | _ :: below => .ok { c with opened := below }

def rollbackTo (c : Copies) (depth : Number) : Except Fault Copies :=
  if depth.lt (.ofNat 0) || (Number.ofNat c.depth).lt depth then
    .error (.misuse (.noSuchDepth depth))
  else
    match depth.toInt? with
    | none => .error .brokenDepth
    | some d => .ok { c with opened := c.opened.drop (c.depth - d.toNat) }

def whenIdle (c : Copies) (operation : String) (f : Copy → Copy) : Except Misuse Copies :=
  match c.opened with
  | [] => .ok { c with bottom := f c.bottom }
  | _ => .error (.whileOpen operation)

def destroy (c : Copies) (a : Address) : Except Misuse Copies := c.whenIdle "destroy" (·.erase a)

def apply (c : Copies) (d : Delta) : Except Misuse Copies := c.whenIdle "apply" (·.apply d)

end Copies

/-! ## Requests -/

inductive StorageOp where
  | snapshot
  | commit
  | rollback
  | rollbackTo (depth : Number)
  | write (a : Address) (key : String) (v : Value) (m : GasMeter)
  | setBalance (a : Address) (n : Int)
  | transfer (source target : Address) (amount : Int)
  | destroy (a : Address)
  | apply (d : Delta)

inductive StorageAnswer where
  | done
  /-- The depth that a snapshot reached. -/
  | depth (n : Nat)
  | committed (d : Option Delta)
  /-- The price class of a write, and the meter that paid for it. -/
  | written (cls : WriteClass) (m : GasMeter)
deriving DecidableEq

namespace StorageOp

variable {σ : Type}

def done (r : Except Fault σ) : Except Fault (StorageAnswer × σ) := r.map (.done, ·)

def committed (r : Except Misuse (Option Delta × σ)) : Except Fault (StorageAnswer × σ) :=
  (r.mapError .misuse).map fun (d, s) => (.committed d, s)

def written (r : Except Fault (WriteClass × σ × GasMeter)) : Except Fault (StorageAnswer × σ) :=
  r.map fun (cls, s, m) => (.written cls m, s)

/-- A request to the layered storage. -/
def onLayers (s : Storage) : StorageOp → Except Fault (StorageAnswer × Storage)
  | snapshot => .ok (.depth s.snapshot.depth, s.snapshot)
  | commit => committed s.commit
  | rollback => done (s.rollback.mapError .misuse)
  | rollbackTo depth => done (s.rollbackTo depth)
  | write a key v m => written (s.write a key v m)
  | setBalance a n => done ((s.setBalance a n).mapError .misuse)
  | transfer source target amount => done (s.transfer source target amount)
  | destroy a => done ((s.destroy a).mapError .misuse)
  | apply d => done ((s.apply d).mapError .misuse)

/-- The same request to the stack of copies. -/
def onCopies (c : Copies) : StorageOp → Except Fault (StorageAnswer × Copies)
  | snapshot => .ok (.depth c.snapshot.depth, c.snapshot)
  | commit => committed c.commit
  | rollback => done (c.rollback.mapError .misuse)
  | rollbackTo depth => done (c.rollbackTo depth)
  | write a key v m => written (c.write a key v m)
  | setBalance a n => done ((c.setBalance a n).mapError .misuse)
  | transfer source target amount => done (c.transfer source target amount)
  | destroy a => done ((c.destroy a).mapError .misuse)
  | apply d => done ((c.apply d).mapError .misuse)

/-- What is answered to `ops` in turn, and the storage after them. -/
def trace (on : σ → StorageOp → Except Fault (StorageAnswer × σ)) (s : σ) :
    List StorageOp → List (Except Fault StorageAnswer) × σ
  | [] => ([], s)
  | op :: rest =>
    match on s op with
    | .error f => let (answers, t) := trace on s rest; (.error f :: answers, t)
    | .ok (answer, s') => let (answers, t) := trace on s' rest; (.ok answer :: answers, t)

end StorageOp
end ContractVM
