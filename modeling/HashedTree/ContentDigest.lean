import HashedTree.DigestCombinators

/-! # The digest of a file's content

The content is cut into chunks of 256 bytes, the last one filled up with zeros. The digests of the
chunks are joined in pairs, level by level, and a last digest without a partner moves up as it is.
-/
namespace HashedTree.ContentDigest
open ByteBlocks KeccakDigest DigestCombinators

def chunkSize : Nat := 256

def leaf (chunk : Bytes) : Digest := keccak256 (zeroFill chunkSize chunk)

/-- The next level: neighbours joined in pairs. -/
def pairUp : List Digest → List Digest
  | left :: right :: rest => join left right :: pairUp rest
  | single => single

def climb : Nat → List Digest → Digest
  | _, [] => keccak256 []
  | _, [d] => d
  | 0, d :: _ => d
  | levels + 1, ds => climb levels (pairUp ds)

/-- The root above a level of digests; without any, the digest of the empty string. A level is
about half as long as the one below it, so there are fewer levels than digests. -/
def merkleRoot (level : List Digest) : Digest := climb level.length level

def contentDigest (content : Bytes) : Digest := merkleRoot ((blocks chunkSize content).map leaf)

@[simp] theorem merkleRoot_nil : merkleRoot [] = keccak256 [] := rfl

@[simp] theorem merkleRoot_singleton (d : Digest) : merkleRoot [d] = d := rfl

theorem length_pairUp : ∀ ds : List Digest, (pairUp ds).length = (ds.length + 1) / 2
  | [] => rfl
  | [_] => by simp [pairUp]
  | _ :: _ :: rest => by
    have := length_pairUp rest
    simp only [pairUp, List.length_cons]
    omega

private theorem climb_of_le : ∀ {n m : Nat} {ds : List Digest},
    ds.length ≤ n → ds.length ≤ m → climb n ds = climb m ds
  | _, _, [], _, _ => by simp [climb]
  | _, _, [_], _, _ => by simp [climb]
  | 0, _, _ :: _ :: _, h, _ => by simp at h
  | _ + 1, 0, _ :: _ :: _, _, h => by simp at h
  | n + 1, m + 1, a :: b :: rest, hn, hm => by
    have := length_pairUp rest
    simp only [List.length_cons] at hn hm
    simp only [climb]
    exact climb_of_le (by simp only [pairUp, List.length_cons]; omega)
      (by simp only [pairUp, List.length_cons]; omega)

/-- Going up a level keeps the root. -/
theorem merkleRoot_pairUp : ∀ ds : List Digest, merkleRoot (pairUp ds) = merkleRoot ds
  | [] => rfl
  | [_] => rfl
  | a :: b :: rest => by
    have := length_pairUp rest
    show _ = climb (rest.length + 1) (pairUp (a :: b :: rest))
    exact climb_of_le (Nat.le_refl _) (by simp only [pairUp, List.length_cons]; omega)

end HashedTree.ContentDigest
