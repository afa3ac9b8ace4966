/-
Reading JSON in two passes. The first goes over the characters once and gives
tokens; the second goes over the tokens once and keeps a stack of the lists and
records that are still open. Both are folds, so nesting costs no recursion.
-/
import ContractVM.Json.Basic

namespace ContractVM
namespace Json

/-! ## Tokens -/

inductive Token where
  /-- A bracket, brace, comma or colon. -/
  | mark (c : Char)
  | text (s : String)
  /-- Anything else: a number or a word. -/
  | atom (cs : List Char)

/-- Where the first pass stands; what is collected is kept in reverse. Text is
collected in units, since an escape gives a unit and two of them may make one
character. -/
inductive Mode where
  | between
  | atom (cs : List Char)
  | text (us : List Nat)
  | escape (us : List Nat)
  | unit (us : List Nat) (left value : Nat)
  | failed

structure Lexer where
  mode : Mode := .between
  tokens : List Token := []

namespace Lexer

def isMark (c : Char) : Bool := c ∈ ['[', ']', '\x7b', '\x7d', ',', ':']

def isBlank (c : Char) : Bool := c ∈ [' ', '\t', '\n', '\r']

/-- The unit of a short escape. -/
def escaped (c : Char) : Nat :=
  match c with
  | 'n' => 10
  | 't' => 9
  | 'r' => 13
  | 'b' => 8
  | 'f' => 12
  | _ => c.toNat

/-- A character outside text. -/
def outside (tokens : List Token) (c : Char) : Lexer :=
  if isBlank c then ⟨.between, tokens⟩
  else if isMark c then ⟨.between, .mark c :: tokens⟩
  else if c = '"' then ⟨.text [], tokens⟩
  else ⟨.atom [c], tokens⟩

def step (l : Lexer) (c : Char) : Lexer :=
  match l.mode with
  | .between => outside l.tokens c
  | .atom cs =>
    if isBlank c || isMark c || c = '"' then outside (.atom cs.reverse :: l.tokens) c
    else { l with mode := .atom (c :: cs) }
  | .text us =>
    if c = '"' then ⟨.between, .text (Text.ofUnits us.reverse) :: l.tokens⟩
    else if c = '\\' then { l with mode := .escape us }
    else { l with mode := .text ((Text.unitsOf c).reverse ++ us) }
  | .escape us =>
    if c = 'u' then { l with mode := .unit us 4 0 }
    else { l with mode := .text (escaped c :: us) }
  | .unit us left value =>
    match Text.hexValue? c.toNat with
    | none => { l with mode := .failed }
    | some d =>
      if left ≤ 1 then { l with mode := .text ((value * 16 + d) :: us) }
      else { l with mode := .unit us (left - 1) (value * 16 + d) }
  | .failed => l

/-- The tokens of a text, unless it breaks off inside one. -/
def tokens? (cs : List Char) : Option (List Token) :=
  let l := cs.foldl step {}
  match l.mode with
  | .between => some l.tokens.reverse
  | .atom rest => some (.atom rest.reverse :: l.tokens).reverse
  | _ => none

end Lexer

/-! ## Numbers and words -/

/-- A number as written: sign, digits, fraction, exponent. -/
def readNumber (cs : List Char) : Option Number :=
  let (negative, cs) := match cs with
    | '-' :: rest => (true, rest)
    | _ => (false, cs)
  let whole := cs.takeWhile Char.isDigit
  let (fraction, cs) := match cs.dropWhile Char.isDigit with
    | '.' :: rest => (rest.takeWhile Char.isDigit, rest.dropWhile Char.isDigit)
    | rest => ([], rest)
  let exponent : Option Int := match cs with
    | [] => some 0
    | e :: rest =>
      let (down, ds) := match rest with
        | '-' :: ds => (true, ds)
        | '+' :: ds => (false, ds)
        | ds => (false, ds)
      if (e = 'e' || e = 'E') && ds.all Char.isDigit then
        some (if down then -(decimal ds : Int) else decimal ds)
      else none
  if whole.isEmpty then none
  else exponent.map fun e =>
    let q := Number.scale10 (decimal (whole ++ fraction) : Rat) (e - fraction.length)
    Number.nearest (if negative then -q else q)

def readAtom (cs : List Char) : Option Json :=
  if cs = "null".toList then some .null
  else if cs = "true".toList then some (.bool true)
  else if cs = "false".toList then some (.bool false)
  else (readNumber cs).map .number

/-! ## Values -/

/-- A list or record that is still open, its parts in reverse. -/
inductive Open where
  | list (items : List Json)
  | record (fields : List (String × Json)) (key : Option String)

/-- What may come next. -/
inductive Expected where
  /-- A value, or the end of the list that was just opened. -/
  | value (mayClose : Bool)
  | key (mayClose : Bool)
  | colon
  /-- A comma or the end. -/
  | more
  | nothing
deriving DecidableEq

structure Reader where
  stack : List Open := []
  expected : Expected := .value false
  result : Json := .null

namespace Reader

/-- A value is complete: it goes into what is open around it. -/
def add (stack : List Open) (j : Json) : Reader :=
  match stack with
  | .list items :: rest => ⟨.list (j :: items) :: rest, .more, .null⟩
  | .record fields (some key) :: rest =>
    ⟨.record ((key, j) :: fields) none :: rest, .more, .null⟩
  | _ => ⟨[], .nothing, j⟩

/-- Close what is open, if `c` is the mark for it. -/
def close (c : Char) : List Open → Option Reader
  | .list items :: rest => if c = ']' then some (add rest (.list items.reverse)) else none
  | .record fields none :: rest =>
    if c = '\x7d' then some (add rest (.record fields.reverse)) else none
  | _ => none

def step (r : Reader) (t : Token) : Option Reader :=
  match r.expected, t with
  | .value mayClose, .mark c =>
    if c = '[' then some ⟨.list [] :: r.stack, .value true, .null⟩
    else if c = '\x7b' then some ⟨.record [] none :: r.stack, .key true, .null⟩
    else if mayClose then close c r.stack
    else none
  | .value _, .text s => some (add r.stack (.text s))
  | .value _, .atom cs => (readAtom cs).map (add r.stack)
  | .key mayClose, .mark c => if mayClose then close c r.stack else none
  | .key _, .text s =>
    match r.stack with
    | .record fields _ :: rest => some ⟨.record fields (some s) :: rest, .colon, .null⟩
    | _ => none
  | .colon, .mark c => if c = ':' then some { r with expected := .value false } else none
  | .more, .mark c =>
    if c = ',' then
      match r.stack with
      | .list _ :: _ => some { r with expected := .value false }
      | _ => some { r with expected := .key false }
    else close c r.stack
  | _, _ => none

end Reader

/-- The value a text spells. -/
def read? (s : String) : Option Json :=
  match (Lexer.tokens? s.toList).bind fun ts => ts.foldlM Reader.step {} with
  | some r => if r.expected = .nothing then some r.result else none
  | none => none

end Json
end ContractVM
