/-
Contract storage and native balances. Frames stack layers of writes over the
persisted state; a read sees the topmost layer that holds the key. Committing
merges the top layer into the one below, and the bottom layer into the
persisted state; rolling back forgets it.

Slots and balances keep the order of their first write, through every merge.
-/
import ContractVM.Fault
import ContractVM.Gas

namespace ContractVM

structure Layer where
  slots : Table (Table Value)
  balances : Table Int
deriving DecidableEq

namespace Layer

def empty : Layer := ⟨∅, ∅⟩

def slot? (l : Layer) (a : Address) (key : String) : Option Value :=
  (l.slots.get? a).bind (·.get? key)

def balance? (l : Layer) (a : Address) : Option Int := l.balances.get? a

def setSlot (l : Layer) (a : Address) (key : String) (v : Value) : Layer :=
  { l with slots := l.slots.set a (((l.slots.get? a).getD ∅).set key v) }

def setBalance (l : Layer) (a : Address) (n : Int) : Layer :=
  { l with balances := l.balances.set a n }

/-- Forget everything an address holds. -/
def erase (l : Layer) (a : Address) : Layer := ⟨l.slots.erase a, l.balances.erase a⟩

/-- The slots of one address written over those `slots` holds for it. -/
def mergeSlots (slots : Table (Table Value)) (e : String × Table Value) :
    Table (Table Value) :=
  slots.set e.1 (((slots.get? e.1).getD ∅).setAll e.2.entries)

/-- `upper` written over `lower`. -/
def merge (lower upper : Layer) : Layer where
  slots := upper.slots.entries.foldl mergeSlots lower.slots
  balances := lower.balances.setAll upper.balances.entries

theorem slot?_setSlot (l : Layer) (a b : Address) (k j : String) (v : Value) :
    (l.setSlot a k v).slot? b j = if b = a ∧ j = k then some v else l.slot? b j := by
  simp only [slot?, setSlot, Table.get?_set]
  by_cases hb : b = a
  · subst hb
    simp only [if_true, Option.bind_some, Table.get?_set, true_and]
    by_cases hj : j = k
    · simp only [hj, if_true]
    · simp only [hj, if_false]
      cases l.slots.get? b <;> rfl
  · simp only [hb, if_false, false_and]

theorem balance?_setBalance (l : Layer) (a b : Address) (n : Int) :
    (l.setBalance a n).balance? b = if b = a then some n else l.balance? b :=
  Table.get?_set ..

@[simp] theorem slot?_setBalance (l : Layer) (a b : Address) (k : String) (n : Int) :
    (l.setBalance a n).slot? b k = l.slot? b k := rfl

theorem slot?_erase (l : Layer) (a b : Address) (k : String) :
    (l.erase a).slot? b k = if b = a then none else l.slot? b k := by
  simp only [slot?, erase, Table.get?_erase]
  split <;> rfl

theorem balance?_erase (l : Layer) (a b : Address) :
    (l.erase a).balance? b = if b = a then none else l.balance? b := Table.get?_erase ..

end Layer

/-! ## What a transaction changes -/

structure SlotWrite where
  address : Address
  key : String
  value : Value
deriving Repr, DecidableEq

structure BalanceWrite where
  address : Address
  balance : Int
deriving Repr, DecidableEq

/-- The writes of one transaction and the accounts it destroyed. -/
structure Delta where
  slots : List SlotWrite
  balances : List BalanceWrite
  destroyed : List Address
deriving Repr, DecidableEq

/-- The writes a layer holds, address by address. -/
def Layer.delta (l : Layer) : Delta where
  slots := l.slots.entries.flatMap fun e => e.2.entries.map fun w => ⟨e.1, w.1, w.2⟩
  balances := l.balances.entries.map fun e => ⟨e.1, e.2⟩
  destroyed := []

/-- A delta written over a layer: writes first, destruction last. -/
def Layer.apply (l : Layer) (d : Delta) : Layer :=
  let l := d.slots.foldl (fun l w => l.setSlot w.address w.key w.value) l
  let l := d.balances.foldl (fun l b => l.setBalance b.address b.balance) l
  d.destroyed.foldl Layer.erase l

/-! ## Storage -/

structure Storage where
  persisted : Layer
  /-- The open layers, the topmost first. -/
  layers : List Layer
deriving DecidableEq

/-- Whether a write found its key already there; this decides its price. -/
inductive WriteClass where
  | new
  | update
deriving Repr, DecidableEq

def WriteClass.name : WriteClass → String
  | .new => "new"
  | .update => "update"

def WriteClass.fee : WriteClass → Int
  | .new => Fee.storageSet
  | .update => Fee.storageUpdate

namespace Storage

def empty : Storage := ⟨.empty, []⟩

instance : Inhabited Storage := ⟨empty⟩

def depth (s : Storage) : Nat := s.layers.length

/-! ### Reading -/

def peek? (s : Storage) (a : Address) (key : String) : Option Value :=
  (s.layers ++ [s.persisted]).findSome? (·.slot? a key)

def has (s : Storage) (a : Address) (key : String) : Bool := (s.peek? a key).isSome

/-- A slot that was never written reads as zero. -/
def read (s : Storage) (a : Address) (key : String) : Value := (s.peek? a key).getD (.int 0)

def readPersisted (s : Storage) (a : Address) (key : String) : Value :=
  (s.persisted.slot? a key).getD (.int 0)

def balanceOf (s : Storage) (a : Address) : Int :=
  ((s.layers ++ [s.persisted]).findSome? (·.balance? a)).getD 0

/-! ### Writing

Every write goes to the topmost layer, so there has to be one. -/

def updateTop (s : Storage) (f : Layer → Layer) : Except Misuse Storage :=
  match s.layers with
  | [] => .error .outsideSnapshot
  | top :: below => .ok { s with layers := f top :: below }

def classify (s : Storage) (a : Address) (key : String) : WriteClass :=
  if s.has a key then .update else .new

/-- Charge for a write, then make it. -/
def write (s : Storage) (a : Address) (key : String) (v : Value) (m : GasMeter) :
    Except Fault (WriteClass × Storage × GasMeter) :=
  match s.updateTop (·.setSlot a key v) with
  | .error e => .error (.misuse e)
  | .ok s' =>
    match m.charge (s.classify a key).fee with
    | .error c => .error (.raised c false)
    | .ok m' => .ok (s.classify a key, s', m')

def setBalance (s : Storage) (a : Address) (n : Int) : Except Misuse Storage :=
  s.updateTop (·.setBalance a n)

/-- Move value. Nothing at all happens for an amount of zero. -/
def transfer (s : Storage) (source target : Address) (amount : Int) : Except Fault Storage :=
  if amount < 0 then .error (.raised (.negativeTransfer amount) false)
  else if amount = 0 then .ok s
  else if s.balanceOf source < amount then
    .error (.raised (.insufficient source (s.balanceOf source) amount) false)
  else
    match s.setBalance source (s.balanceOf source - amount) with
    | .error e => .error (.misuse e)
    | .ok paid =>
      match paid.setBalance target (paid.balanceOf target + amount) with
      | .error e => .error (.misuse e)
      | .ok s' => .ok s'

/-! ### Layers -/

def snapshot (s : Storage) : Storage := { s with layers := .empty :: s.layers }

/-- Merge the top layer down. The delta is given when it reaches the persisted
state. -/
def commit (s : Storage) : Except Misuse (Option Delta × Storage) :=
  match s.layers with
  | [] => .error .commitWithoutSnapshot
  | [last] => .ok (some last.delta, ⟨s.persisted.merge last, []⟩)
  | top :: next :: below => .ok (none, { s with layers := next.merge top :: below })

def rollback (s : Storage) : Except Misuse Storage :=
  match s.layers with
  | [] => .error .rollbackWithoutSnapshot
  | _ :: below => .ok { s with layers := below }

/-- Forget every layer above `depth`. Whether the depth lies in range is decided
before whether it is an integer. -/
def rollbackTo (s : Storage) (depth : Number) : Except Fault Storage :=
  if depth.lt (.ofNat 0) || (Number.ofNat s.depth).lt depth then
    .error (.misuse (.noSuchDepth depth))
  else
    match depth.toInt? with
    | none => .error .brokenDepth
    | some d => .ok { s with layers := s.layers.drop (s.depth - d.toNat) }

/-- What committing the one open layer would change. -/
def staged (s : Storage) : Except Misuse Delta :=
  match s.layers with
  | [only] => .ok only.delta
  | _ => .error (.layersOpen s.depth)

/-! ### Persisted state -/

/-- Changes to the persisted state itself need every layer closed. -/
def whenIdle (s : Storage) (operation : String) (f : Layer → Layer) : Except Misuse Storage :=
  match s.layers with
  | [] => .ok { s with persisted := f s.persisted }
  | _ => .error (.whileOpen operation)

def destroy (s : Storage) (a : Address) : Except Misuse Storage :=
  s.whenIdle "destroy" (·.erase a)

def apply (s : Storage) (d : Delta) : Except Misuse Storage := s.whenIdle "apply" (·.apply d)

/-! ### Lemmas -/

theorem rollback_snapshot (s : Storage) : s.snapshot.rollback = .ok s := rfl

theorem peek?_cons (p l : Layer) (ls : List Layer) (a : Address) (k : String) :
    (⟨p, l :: ls⟩ : Storage).peek? a k =
      match l.slot? a k with
      | some v => some v
      | none => (⟨p, ls⟩ : Storage).peek? a k := by
  simp only [peek?, List.cons_append, List.findSome?_cons]
  cases l.slot? a k <;> rfl

@[simp] theorem balanceOf_snapshot (s : Storage) (a : Address) :
    s.snapshot.balanceOf a = s.balanceOf a := rfl

end Storage
end ContractVM
