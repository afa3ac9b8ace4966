/-
The stored form of a committed transaction: its delta and its events, as nested
items. The delta is encoded on its own and stored as one byte string.

A reader takes what it needs from the front of every list, in the order of the
parts, and ignores what is left over. A missing part has neither shape.
-/
import ContractVM.Event.Basic
import ContractVM.Storage.Basic
import ContractVM.Text.Utf8

namespace ContractVM

open Text (utf8 ofUtf8 natOfBytes intBytes)
open Rlp (Item)

/-- What one transaction did. -/
structure JournalEntry where
  delta : Delta
  events : List LoggedEvent
deriving DecidableEq

namespace Codec

/-- Bytes, or the fault for text that is no hexadecimal. -/
def hexItem (b : Except Text.HexError Bytes) : Except Fault Item :=
  match b with
  | .ok bytes => .ok (.bytes bytes)
  | .error e => .error (.hex e)

def addressItem (a : Address) : Except Fault Item := hexItem (Address.toBytes a)

def intItem (n : Int) : Except Fault Item := hexItem (intBytes n)

def textItem (s : String) : Item := .bytes (utf8 s)

/-- The bytes of an item, or the fault of one that is too long. -/
def packed (i : Item) : Except Fault Bytes :=
  match Rlp.pack i with
  | .ok b => .ok b
  | .error e => .error (.rlp e)

def boolBytes (b : Bool) : Bytes := if b then [1] else []

/-! ## Writing -/

/-- The tag and the payload of a value. -/
def valueParts : Value → Except Fault (Bytes × Bytes)
  | .int n =>
    match intBytes n with
    | .ok b => .ok (utf8 "u", b)
    | .error e => .error (.hex e)
  | .bool b => .ok (utf8 "b", boolBytes b)
  | .text s => .ok (utf8 "s", utf8 s)

def valueItem (v : Value) : Except Fault Item := do
  let (tag, payload) ← valueParts v
  return .list [.bytes tag, .bytes payload]

def slotItem (w : SlotWrite) : Except Fault Item := do
  let address ← addressItem w.address
  let value ← valueItem w.value
  return .list [address, textItem w.key, value]

def balanceItem (b : BalanceWrite) : Except Fault Item := do
  let address ← addressItem b.address
  let balance ← intItem b.balance
  return .list [address, balance]

def encodeDelta (d : Delta) : Except Fault Bytes := do
  let slots ← d.slots.mapM slotItem
  let balances ← d.balances.mapM balanceItem
  let destroyed ← d.destroyed.mapM addressItem
  packed (.list [.list slots, .list balances, .list destroyed])

def fieldItem (f : LoggedField) : Except Fault Item := do
  let value ← valueItem f.value
  return .list [textItem f.name, value, .bytes (boolBytes f.indexed)]

/-- A place in the log is stored as an integer, which it has to be. -/
def indexItem (n : Number) : Except Fault Item :=
  match n.toInt? with
  | some i => intItem i
  | none => .error (.notIntegral n)

def eventItem (e : LoggedEvent) : Except Fault Item := do
  let address ← addressItem e.address
  let index ← indexItem e.logIndex
  let fields ← e.fields.mapM fieldItem
  return .list [address, textItem e.name, index, .list fields]

def encodeEntry (e : JournalEntry) : Except Fault Bytes := do
  let delta ← encodeDelta e.delta
  let events ← e.events.mapM eventItem
  packed (.list [.bytes delta, .list events])

/-! ## Reading -/

def asBytes : Option Item → Except Fault Bytes
  | some (.bytes b) => .ok b
  | _ => .error (.shape .notBytes)

def asList : Option Item → Except Fault (List Item)
  | some (.list items) => .ok items
  | _ => .error (.shape .notList)

def readAddress (b : Bytes) : Except Fault Address :=
  match Address.ofBytes? b with
  | some a => .ok a
  | none => .error (.notAnAddress (Text.hex0x b))

def readItem (b : Bytes) : Except Fault Item :=
  match Rlp.decode b with
  | .ok item => .ok item
  | .error e => .error (.rlp e)

/-- Only the number one is true. -/
def readBool (b : Bytes) : Bool := decide (natOfBytes b = 1)

def readValue (parts : List Item) : Except Fault Value := do
  let tag ← asBytes parts[0]?
  match ofUtf8 tag with
  | "u" => return .int (natOfBytes (← asBytes parts[1]?))
  | "b" => return .bool (readBool (← asBytes parts[1]?))
  | "s" => return .text (ofUtf8 (← asBytes parts[1]?))
  | _ => throw (.shape .unknownTag)

def decodeValue (item : Item) : Except Fault Value := do readValue (← asList (some item))

def readSlot (item : Item) : Except Fault SlotWrite := do
  let parts ← asList (some item)
  let address ← readAddress (← asBytes parts[0]?)
  let key ← asBytes parts[1]?
  let value ← readValue (← asList parts[2]?)
  return ⟨address, ofUtf8 key, value⟩

def readBalance (item : Item) : Except Fault BalanceWrite := do
  let parts ← asList (some item)
  let address ← readAddress (← asBytes parts[0]?)
  let balance ← asBytes parts[1]?
  return ⟨address, natOfBytes balance⟩

def readDestroyed (item : Item) : Except Fault Address := do
  readAddress (← asBytes (some item))

def decodeDelta (b : Bytes) : Except Fault Delta := do
  let parts ← asList (some (← readItem b))
  let slots ← (← asList parts[0]?).mapM readSlot
  let balances ← (← asList parts[1]?).mapM readBalance
  let destroyed ← (← asList parts[2]?).mapM readDestroyed
  return ⟨slots, balances, destroyed⟩

def readField (item : Item) : Except Fault LoggedField := do
  let parts ← asList (some item)
  let name ← asBytes parts[0]?
  let value ← readValue (← asList parts[1]?)
  let indexed ← asBytes parts[2]?
  return ⟨ofUtf8 name, value, readBool indexed⟩

def readEvent (item : Item) : Except Fault LoggedEvent := do
  let parts ← asList (some item)
  let address ← readAddress (← asBytes parts[0]?)
  let name ← asBytes parts[1]?
  let index ← asBytes parts[2]?
  let fields ← (← asList parts[3]?).mapM readField
  return { address, name := ofUtf8 name, fields, logIndex := .nearest (natOfBytes index) }

def decodeEntry (b : Bytes) : Except Fault JournalEntry := do
  let parts ← asList (some (← readItem b))
  let delta ← decodeDelta (← asBytes parts[0]?)
  let events ← (← asList parts[1]?).mapM readEvent
  return ⟨delta, events⟩

end Codec
end ContractVM
