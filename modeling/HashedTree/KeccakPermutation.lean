/-! # The permutation of 25 lanes of 64 bits, in 24 rounds

The state is five planes of five lanes; a column is the five lanes of one position in all planes.
-/
namespace HashedTree.KeccakPermutation

/-- Five lanes side by side. -/
structure Plane where
  a : UInt64
  b : UInt64
  c : UInt64
  d : UInt64
  e : UInt64
  deriving DecidableEq

/-- Five planes on top of each other. -/
structure Lanes where
  a : Plane
  b : Plane
  c : Plane
  d : Plane
  e : Plane
  deriving DecidableEq

/-- The lane turned to the left by `n` bits, for `n` from 1 to 63. -/
@[inline] def turn (x : UInt64) (n : UInt64) : UInt64 := (x <<< n) ||| (x >>> (64 - n))

def Plane.xor (p q : Plane) : Plane :=
  ⟨p.a ^^^ q.a, p.b ^^^ q.b, p.c ^^^ q.c, p.d ^^^ q.d, p.e ^^^ q.e⟩

def Plane.zero : Plane := ⟨0, 0, 0, 0, 0⟩

def Lanes.zero : Lanes := ⟨.zero, .zero, .zero, .zero, .zero⟩

def Lanes.xor (s t : Lanes) : Lanes :=
  ⟨s.a.xor t.a, s.b.xor t.b, s.c.xor t.c, s.d.xor t.d, s.e.xor t.e⟩

/-- Adds to every lane the parity of the column to its left and of the turned column to its
right. -/
def mixColumns (s : Lanes) : Lanes :=
  let parity := (((s.a.xor s.b).xor s.c).xor s.d).xor s.e
  let delta : Plane :=
    ⟨parity.e ^^^ turn parity.b 1, parity.a ^^^ turn parity.c 1, parity.b ^^^ turn parity.d 1,
      parity.c ^^^ turn parity.e 1, parity.d ^^^ turn parity.a 1⟩
  ⟨s.a.xor delta, s.b.xor delta, s.c.xor delta, s.d.xor delta, s.e.xor delta⟩

/-- Turns every lane by its own offset and moves the lane at position `x` of plane `y` to
position `y` of plane `2x + 3y`. -/
def scatter (s : Lanes) : Lanes :=
  ⟨⟨s.a.a, turn s.b.b 44, turn s.c.c 43, turn s.d.d 21, turn s.e.e 14⟩,
    ⟨turn s.a.d 28, turn s.b.e 20, turn s.c.a 3, turn s.d.b 45, turn s.e.c 61⟩,
    ⟨turn s.a.b 1, turn s.b.c 6, turn s.c.d 25, turn s.d.e 8, turn s.e.a 18⟩,
    ⟨turn s.a.e 27, turn s.b.a 36, turn s.c.b 10, turn s.d.c 15, turn s.e.d 56⟩,
    ⟨turn s.a.c 62, turn s.b.d 55, turn s.c.e 39, turn s.d.a 41, turn s.e.b 2⟩⟩

def Plane.mixLanes (p : Plane) : Plane :=
  ⟨p.a ^^^ (~~~p.b &&& p.c), p.b ^^^ (~~~p.c &&& p.d), p.c ^^^ (~~~p.d &&& p.e),
    p.d ^^^ (~~~p.e &&& p.a), p.e ^^^ (~~~p.a &&& p.b)⟩

/-- One round; the constant breaks the symmetry of the lanes. -/
def round (s : Lanes) (constant : UInt64) : Lanes :=
  let t := scatter (mixColumns s)
  let first := t.a.mixLanes
  ⟨⟨first.a ^^^ constant, first.b, first.c, first.d, first.e⟩,
    t.b.mixLanes, t.c.mixLanes, t.d.mixLanes, t.e.mixLanes⟩

def roundConstants : List UInt64 :=
  [0x0000000000000001, 0x0000000000008082, 0x800000000000808A, 0x8000000080008000,
    0x000000000000808B, 0x0000000080000001, 0x8000000080008081, 0x8000000000008009,
    0x000000000000008A, 0x0000000000000088, 0x0000000080008009, 0x000000008000000A,
    0x000000008000808B, 0x800000000000008B, 0x8000000000008089, 0x8000000000008003,
    0x8000000000008002, 0x8000000000000080, 0x000000000000800A, 0x800000008000000A,
    0x8000000080008081, 0x8000000000008080, 0x0000000080000001, 0x8000000080008008]

def permute (s : Lanes) : Lanes := roundConstants.foldl round s

end HashedTree.KeccakPermutation
