/-
JSON values whose records keep their fields in the order written, because that
order decides in which order arguments run. Numbers are of limited precision;
exact integers and bytes are written as a record with the single field `int` or
`hex`.
-/
import ContractVM.Number
import ContractVM.Table
import ContractVM.Text.Hex

namespace ContractVM

inductive Json where
  | null
  | bool (b : Bool)
  | number (n : Number)
  | text (s : String)
  | list (items : List Json)
  | record (fields : List (String × Json))
deriving Inhabited

namespace Json

def ofNat (n : Nat) : Json := .number (.ofNat n)

def ofInt (n : Int) : Json := .record [("int", .text (toString n))]

def ofBytes (b : Bytes) : Json := .record [("hex", .text (Text.hex b))]

def ofList {α : Type} (f : α → Json) (items : List α) : Json := .list (items.map f)

def ofOption {α : Type} (f : α → Json) : Option α → Json
  | some a => f a
  | none => .null

/-- A field that is left out if there is nothing to say. -/
def field? {α : Type} (key : String) (f : α → Json) : Option α → List (String × Json)
  | some a => [(key, f a)]
  | none => []

/-! ## Depth -/

mutual
/-- How deep values nest. -/
def depth : Json → Nat
  | .list items => depthAll items + 1
  | .record fields => depthFields fields + 1
  | _ => 1

def depthAll : List Json → Nat
  | [] => 0
  | j :: rest => max j.depth (depthAll rest)

def depthFields : List (String × Json) → Nat
  | [] => 0
  | (_, j) :: rest => max j.depth (depthFields rest)
end

/-! ## Writing -/

/-- A character inside quotes. -/
def quoteChar (c : Char) : List Char :=
  if c = '"' then ['\\', '"']
  else if c = '\\' then ['\\', '\\']
  else if c.toNat < 32 then
    ['\\', 'u', '0', '0', Text.hexDigit (c.toNat / 16), Text.hexDigit (c.toNat % 16)]
  else [c]

def quote (s : String) : String := String.ofList ('"' :: s.toList.flatMap quoteChar ++ ['"'])

/-- A number; one that is not finite has no digits and is written by name. -/
def printNumber : Number → String
  | .finite q => Number.text (.finite q)
  | n => "\x7b\"num\":" ++ quote n.text ++ "\x7d"

mutual
def print : Json → String
  | .null => "null"
  | .bool b => if b then "true" else "false"
  | .number n => printNumber n
  | .text s => quote s
  | .list items => "[" ++ ",".intercalate (printAll items) ++ "]"
  | .record fields => "\x7b" ++ ",".intercalate (printFields fields) ++ "\x7d"

def printAll : List Json → List String
  | [] => []
  | j :: rest => print j :: printAll rest

def printFields : List (String × Json) → List String
  | [] => []
  | (k, j) :: rest => (quote k ++ ":" ++ print j) :: printFields rest
end

/-! ## Looking inside

A missing field and a null one are the same. Of two fields with one name the
later counts. -/

abbrev Reading := Except String

def get? (j : Json) (key : String) : Option Json :=
  match j with
  | .record fields =>
    match fields.reverse.lookup key with
    | some .null => none
    | found => found
  | _ => none

def get (j : Json) (key : String) : Reading Json :=
  match j.get? key with
  | some v => .ok v
  | none => .error ("missing field " ++ key)

/-- A field that may be missing. -/
def getOpt {α : Type} (j : Json) (key : String) (read : Json → Reading α) :
    Reading (Option α) :=
  match j.get? key with
  | some v => (read v).map some
  | none => .ok none

def toText : Json → Reading String
  | .text s => .ok s
  | _ => .error "expected a text"

def toBool : Json → Reading Bool
  | .bool b => .ok b
  | _ => .error "expected a truth value"

def toList {α : Type} (read : Json → Reading α) : Json → Reading (List α)
  | .list items => items.mapM read
  | _ => .error "expected a list"

def toNumber : Json → Reading Number
  | .number n => .ok n
  | .record [("num", .text "Infinity")] => .ok (.infinite false)
  | .record [("num", .text "-Infinity")] => .ok (.infinite true)
  | .record [("num", .text "NaN")] => .ok .notANumber
  | _ => .error "expected a number"

/-- The number that decimal digits spell. -/
def decimal (ds : List Char) : Nat := ds.foldl (fun n c => n * 10 + (c.toNat - 48)) 0

def intOfText (s : String) : Int :=
  match s.toList with
  | '-' :: ds => -(decimal ds : Int)
  | ds => decimal ds

/-- An exact integer, or a number that is one. -/
def toInt : Json → Reading Int
  | .record [("int", .text s)] => .ok (intOfText s)
  | .number n =>
    match n.toInt? with
    | some i => .ok i
    | none => .error "expected an integer"
  | _ => .error "expected an integer"

def toBytes : Json → Reading Bytes
  | .record [("hex", .text s)] => (Text.readHex (Text.units s)).mapError (·.message)
  | _ => .error "expected bytes"

/-- One of several things, known by their names. -/
def byName {α : Type} (all : List α) (name : α → String) (j : Json) : Reading α := do
  let s ← j.toText
  match all.find? (fun a => name a = s) with
  | some a => return a
  | none => throw ("unknown name " ++ s)

/-- A table, its fields in the order in which records are visited. -/
def toTable {α : Type} (read : Json → Reading α) : Json → Reading (Table α)
  | .record fields => do
    return Table.ofWritten (← fields.mapM fun e => do return (e.1, ← read e.2))
  | _ => .error "expected a record"

/-- Whether a field is there and true. -/
def flag (j : Json) (key : String) : Reading Bool := do
  return (← j.getOpt key toBool).getD false

end Json
end ContractVM
