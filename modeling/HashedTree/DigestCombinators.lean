import HashedTree.KeccakDigest
import HashedTree.Utf8Text

/-! # Digests of digests

A directory is hashed from the right: the last digest is hashed alone, and every earlier one is
hashed together with the result so far.
-/
namespace HashedTree.DigestCombinators
open KeccakDigest

def join (left right : Digest) : Digest := keccak256 (left.bytes ++ right.bytes)

/-- The digest of a directory whose entries, in name order, have the given digests. -/
def directoryHash : List Digest → Digest
  | [] => .zero
  | [d] => keccak256 d.bytes
  | d :: e :: rest => join d (directoryHash (e :: rest))

def linkHash (target : String) : Digest := keccak256 (Utf8Text.utf8 target)

end HashedTree.DigestCombinators
