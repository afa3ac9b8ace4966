/-
Numbers of limited precision: block times, event indices and depth limits are
counted in binary floating point with 53 bits. A number is kept as the exact
rational it denotes, so that comparison and conversion are exact; only reading
a number rounds (`nearest`), and writing gives the fewest digits that read back
as the same number.
-/

namespace ContractVM

inductive Number where
  | finite (q : Rat)
  | infinite (negative : Bool)
  | notANumber
deriving Repr, DecidableEq

namespace Number

def ofNat (n : Nat) : Number := .finite n

instance : Inhabited Number := ⟨ofNat 0⟩

/-- The integer a number is, if it is one. -/
def toInt? : Number → Option Int
  | .finite q => if q.den = 1 then some q.num else none
  | _ => none

/-- Strict order; nothing compares with a value that is no number. -/
def lt : Number → Number → Bool
  | .finite a, .finite b => decide (a < b)
  | .finite _, .infinite negative => !negative
  | .infinite negative, .finite _ => negative
  | .infinite a, .infinite b => a && !b
  | .notANumber, _ => false
  | _, .notANumber => false

@[simp] theorem toInt?_ofNat (n : Nat) : (ofNat n).toInt? = some (n : Int) := by
  simp [ofNat, toInt?]

/-! ## Rounding -/

/-- `num / den` to the nearest natural number, a half to the even one. -/
def roundDiv (num den : Nat) : Nat :=
  let q := num / den
  let r := num % den
  if 2 * r < den then q
  else if den < 2 * r then q + 1
  else if q % 2 = 0 then q else q + 1

/-- The exponent of the last of 53 bits of `num / den`, a positive quotient;
never below -1074. -/
def exponent (num den : Nat) : Int :=
  let k : Int := (num.log2 : Int) - den.log2
  let reached : Bool :=
    if 0 ≤ k then decide (den <<< k.toNat ≤ num) else decide (den ≤ num <<< (-k).toNat)
  let last := if reached then k - 52 else k - 53
  if last < -1074 then -1074 else last

/-- The multiple of `2 ^ e` nearest to `num / den`. -/
def onGrid (num den : Nat) (e : Int) : Rat :=
  if 0 ≤ e then mkRat (roundDiv num (den <<< e.toNat) <<< e.toNat) 1
  else mkRat (roundDiv (num <<< (-e).toNat) den) (1 <<< (-e).toNat)

/-- The nearest number of 53 bits. From 2¹⁰²⁴ on, rounding reaches infinity. -/
def nearest (q : Rat) : Number :=
  if q.num = 0 then .finite 0
  else
    let a := onGrid q.num.natAbs q.den (exponent q.num.natAbs q.den)
    if mkRat (1 <<< 1024) 1 ≤ a then .infinite (decide (q.num < 0))
    else .finite (if q.num < 0 then -a else a)

/-! ## Writing

`digits` finds the shortest decimal that reads back; `layout` then decides
between plain and exponent notation. -/

/-- `q * 10 ^ k` for an integer `k`. -/
def scale10 (q : Rat) (k : Int) : Rat :=
  if 0 ≤ k then q * 10 ^ k.toNat else q / 10 ^ (-k).toNat

/-- The `p` with `10 ^ (p - 1) ≤ q < 10 ^ p`, searched from `p` on within
`fuel` steps in either direction. -/
def pointFrom (q : Rat) : Nat → Int → Int
  | 0, p => p
  | fuel + 1, p =>
    if scale10 1 p ≤ q then pointFrom q fuel (p + 1)
    else if q < scale10 1 (p - 1) then pointFrom q fuel (p - 1)
    else p

/-- The position of the decimal point of a positive `q`, counted from its first
significant digit. The estimate is off by at most a few places, because
`log2 q` is known to within one and 3/10 is close to log₁₀ 2. -/
def point (q : Rat) : Int :=
  pointFrom q 64 (((q.num.natAbs.log2 : Int) - q.den.log2) * 30103 / 100000)

/-- Of the two decimals of `n` digits next to `q`, the one that reads back as
`q`: the nearer if both do, an even one on a tie. -/
def withDigits? (q : Rat) (p : Int) (n : Nat) : Option Nat :=
  let scaled := scale10 q ((n : Int) - p)
  let low := scaled.num.natAbs / scaled.den
  let back (m : Nat) : Bool := nearest (scale10 (m : Rat) (p - (n : Int))) = .finite q
  let preferred := roundDiv scaled.num.natAbs scaled.den
  let other := if preferred = low then low + 1 else low
  if back preferred then some preferred
  else if back other then some other else none

/-- The first digit count from `n` on, of `fuel` many, at which a decimal reads
back, and that decimal without its point. -/
def shortest (q : Rat) (p : Int) : Nat → Nat → Nat × Nat
  | 0, n => (n, (withDigits? q p n).getD 0)
  | fuel + 1, n =>
    match withDigits? q p n with
    | some m => (n, m)
    | none => shortest q p fuel (n + 1)

/-- A point `p` places after the start of `ds`: plain up to 21 digits and down
to six zeros behind the point, else one digit, the others and an exponent. -/
def layout (ds : List Char) (p : Int) : String :=
  let n : Int := ds.length
  if n ≤ p ∧ p ≤ 21 then String.ofList (ds ++ List.replicate (p - n).toNat '0')
  else if 0 < p ∧ p ≤ 21 then
    String.ofList (ds.take p.toNat ++ '.' :: ds.drop p.toNat)
  else if -6 < p ∧ p ≤ 0 then
    String.ofList ('0' :: '.' :: List.replicate (-p).toNat '0' ++ ds)
  else
    let e := p - 1
    let mantissa := match ds with
      | [] => []
      | [d] => [d]
      | d :: rest => d :: '.' :: rest
    String.ofList mantissa ++ "e" ++ (if 0 ≤ e then "+" else "-") ++ toString e.natAbs

def trimZeros (ds : List Char) : List Char :=
  (ds.reverse.dropWhile (· == '0')).reverse

/-- The text of a positive number; 17 digits always suffice. A decimal that
rounded up to a power of ten has one digit more than was asked for, which moves
the point. -/
def positiveText (q : Rat) : String :=
  let p := point q
  let (n, m) := shortest q p 16 1
  let ds := Nat.toDigits 10 m
  layout (trimZeros ds) (p + (ds.length - n))

def text : Number → String
  | .notANumber => "NaN"
  | .infinite negative => if negative then "-Infinity" else "Infinity"
  | .finite q =>
    if q.num = 0 then "0"
    else if q.num < 0 then "-" ++ positiveText (-q)
    else positiveText q

end Number
end ContractVM
