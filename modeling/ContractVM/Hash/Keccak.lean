/-
Keccak with a 256-bit digest. A message is closed by the byte 0x01, not by the
0x06 of SHA-3.

The state is five rows of five lanes. θ, χ and ι act row by row once the column
parities are known; ρ and π together move every lane once, so they are one
table of rotations.
-/
import ContractVM.Text.Hex

namespace ContractVM
namespace Keccak

/-- Five lanes with the same second coordinate. -/
structure Row where
  a : UInt64
  b : UInt64
  c : UInt64
  d : UInt64
  e : UInt64

structure State where
  r0 : Row
  r1 : Row
  r2 : Row
  r3 : Row
  r4 : Row

def Row.zero : Row := ⟨0, 0, 0, 0, 0⟩

def Row.xor (r s : Row) : Row :=
  ⟨r.a ^^^ s.a, r.b ^^^ s.b, r.c ^^^ s.c, r.d ^^^ s.d, r.e ^^^ s.e⟩

def State.zero : State := ⟨.zero, .zero, .zero, .zero, .zero⟩

def State.xor (s t : State) : State :=
  ⟨s.r0.xor t.r0, s.r1.xor t.r1, s.r2.xor t.r2, s.r3.xor t.r3, s.r4.xor t.r4⟩

/-- Rotate left by `n`, between 1 and 63. -/
def rotate (x n : UInt64) : UInt64 := (x <<< n) ||| (x >>> (64 - n))

/-- θ: add to every lane the parities of two neighbouring columns. -/
def theta (s : State) : State :=
  let p := (((s.r0.xor s.r1).xor s.r2).xor s.r3).xor s.r4
  let d : Row := ⟨p.e ^^^ rotate p.b 1, p.a ^^^ rotate p.c 1, p.b ^^^ rotate p.d 1,
    p.c ^^^ rotate p.e 1, p.d ^^^ rotate p.a 1⟩
  ⟨s.r0.xor d, s.r1.xor d, s.r2.xor d, s.r3.xor d, s.r4.xor d⟩

/-- ρ and π: every lane moves to its place and is rotated by its offset. -/
def rhoPi (s : State) : State where
  r0 := ⟨s.r0.a, rotate s.r1.b 44, rotate s.r2.c 43, rotate s.r3.d 21, rotate s.r4.e 14⟩
  r1 := ⟨rotate s.r0.d 28, rotate s.r1.e 20, rotate s.r2.a 3, rotate s.r3.b 45,
    rotate s.r4.c 61⟩
  r2 := ⟨rotate s.r0.b 1, rotate s.r1.c 6, rotate s.r2.d 25, rotate s.r3.e 8,
    rotate s.r4.a 18⟩
  r3 := ⟨rotate s.r0.e 27, rotate s.r1.a 36, rotate s.r2.b 10, rotate s.r3.c 15,
    rotate s.r4.d 56⟩
  r4 := ⟨rotate s.r0.c 62, rotate s.r1.d 55, rotate s.r2.e 39, rotate s.r3.a 41,
    rotate s.r4.b 2⟩

/-- χ on one row: the only step that is not linear. -/
def Row.chi (r : Row) : Row :=
  ⟨r.a ^^^ ((~~~ r.b) &&& r.c), r.b ^^^ ((~~~ r.c) &&& r.d), r.c ^^^ ((~~~ r.d) &&& r.e),
    r.d ^^^ ((~~~ r.e) &&& r.a), r.e ^^^ ((~~~ r.a) &&& r.b)⟩

def round (s : State) (constant : UInt64) : State :=
  let t := rhoPi (theta s)
  let first := t.r0.chi
  ⟨{ first with a := first.a ^^^ constant }, t.r1.chi, t.r2.chi, t.r3.chi, t.r4.chi⟩

def roundConstants : List UInt64 :=
  [0x0000000000000001, 0x0000000000008082, 0x800000000000808A, 0x8000000080008000,
   0x000000000000808B, 0x0000000080000001, 0x8000000080008081, 0x8000000000008009,
   0x000000000000008A, 0x0000000000000088, 0x0000000080008009, 0x000000008000000A,
   0x000000008000808B, 0x800000000000008B, 0x8000000000008089, 0x8000000000008003,
   0x8000000000008002, 0x8000000000000080, 0x000000000000800A, 0x800000008000000A,
   0x8000000080008081, 0x8000000000008080, 0x0000000080000001, 0x8000000080008008]

def permute (s : State) : State := roundConstants.foldl round s

/-! ## The sponge -/

/-- Bytes absorbed between two permutations. -/
def rate : Nat := 136

/-- A lane of at most eight bytes, least significant first. -/
def laneOfBytes (b : Bytes) : UInt64 := b.foldr (fun x n => n * 256 + x.toUInt64) 0

def lanes : Nat → Bytes → List UInt64
  | 0, _ => []
  | n + 1, b => laneOfBytes (b.take 8) :: lanes n (b.drop 8)

def Row.ofLanes (l : List UInt64) (i : Nat) : Row :=
  ⟨l.getD i 0, l.getD (i + 1) 0, l.getD (i + 2) 0, l.getD (i + 3) 0, l.getD (i + 4) 0⟩

def State.ofBlock (block : Bytes) : State :=
  let l := lanes 17 block
  ⟨.ofLanes l 0, .ofLanes l 5, .ofLanes l 10, .ofLanes l 15, .ofLanes l 20⟩

/-- The message closed by a one bit, zeros and a one bit at the end of a block. -/
def pad (message : Bytes) : Bytes :=
  let free := rate - message.length % rate
  if free = 1 then message ++ [0x81]
  else message ++ 0x01 :: List.replicate (free - 2) 0 ++ [0x80]

/-- Absorb `n` blocks in turn. -/
def absorb (s : State) : Nat → Bytes → State
  | 0, _ => s
  | n + 1, b => absorb (permute (s.xor (.ofBlock (b.take rate)))) n (b.drop rate)

def bytesOfLane (x : UInt64) : Bytes :=
  [x.toUInt8, (x >>> 8).toUInt8, (x >>> 16).toUInt8, (x >>> 24).toUInt8,
   (x >>> 32).toUInt8, (x >>> 40).toUInt8, (x >>> 48).toUInt8, (x >>> 56).toUInt8]

/-- The digest: 32 bytes. -/
def hash (message : Bytes) : Bytes :=
  let padded := pad message
  let s := absorb .zero (padded.length / rate) padded
  bytesOfLane s.r0.a ++ bytesOfLane s.r0.b ++ bytesOfLane s.r0.c ++ bytesOfLane s.r0.d

end Keccak
end ContractVM
