import HashedTree.Digest
import HashedTree.KeccakPermutation

/-! # The Keccak-256 digest of a byte string

A sponge of rate 136: the text is padded with a one bit, zeros and a one bit (without the domain
bits of the later standard) to whole blocks, each block is added to the first 17 lanes before the
lanes are permuted, and the digest is the first four lanes. Lanes hold their low byte first.
-/
namespace HashedTree.KeccakDigest
open ByteBlocks KeccakPermutation

def rate : Nat := 136

/-- The text with its padding: a whole, positive number of blocks. -/
def padded (text : Bytes) : Bytes :=
  let missing := rate - text.length % rate
  if missing = 1 then text ++ [0x81]
  else text ++ (0x01 :: (List.replicate (missing - 2) 0 ++ [0x80]))

def lane : Bytes → UInt64
  | [] => 0
  | b :: rest => b.toUInt64 ||| (lane rest <<< 8)

/-- The plane whose lanes are given; missing lanes are zero. -/
def plane : List UInt64 → Plane
  | [a, b, c, d, e] => ⟨a, b, c, d, e⟩
  | [a, b] => ⟨a, b, 0, 0, 0⟩
  | _ => .zero

/-- The lanes to which a block is added: three planes and two lanes. -/
def blockLanes (block : Bytes) : Lanes :=
  let lanes := (blocks 8 block).map lane
  ⟨plane (lanes.take 5), plane ((lanes.drop 5).take 5), plane ((lanes.drop 10).take 5),
    plane ((lanes.drop 15).take 5), .zero⟩

def laneBytes (x : UInt64) : Bytes :=
  [x.toUInt8, (x >>> 8).toUInt8, (x >>> 16).toUInt8, (x >>> 24).toUInt8, (x >>> 32).toUInt8,
    (x >>> 40).toUInt8, (x >>> 48).toUInt8, (x >>> 56).toUInt8]

def absorb (text : Bytes) : Lanes :=
  (blocks rate (padded text)).foldl (fun s block => permute (s.xor (blockLanes block))) .zero

def squeeze (s : Lanes) : Digest :=
  ⟨laneBytes s.a.a ++ laneBytes s.a.b ++ laneBytes s.a.c ++ laneBytes s.a.d, rfl⟩

def keccak256 (text : Bytes) : Digest := squeeze (absorb text)

end HashedTree.KeccakDigest
