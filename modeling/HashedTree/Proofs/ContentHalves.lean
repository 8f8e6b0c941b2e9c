import HashedTree.Proofs.LevelRoots
import Mathlib.Algebra.Group.Nat.Defs
import Mathlib.Data.Nat.Log

/-!
# The digest of a content from the digests of two parts

If the first part of a level has as many digests as a power of two and the second part no more, then
the two are paired apart: the first part has an even number of digests on every level below its last
one. Both parts come down to one digest on the same level, and there these are joined. So the digest
of a content is found without any levels, by cutting behind a power of two of chunks until no piece
is longer than a chunk.
-/
namespace HashedTree.ContentHalves
open ByteBlocks KeccakDigest DigestCombinators ContentDigest ContentPadding LevelRoots

/-- No pair reaches across if the left part has no digest without a partner. -/
theorem pairUp_append : ∀ {left right : List Digest}, left.length % 2 = 0 →
    pairUp (left ++ right) = pairUp left ++ pairUp right
  | [], _, _ => rfl
  | [_], _, even => by simp at even
  | first :: second :: left, right, even => by
    have hleft : left.length % 2 = 0 := by
      rw [List.length_cons, List.length_cons] at even
      omega
    rw [List.cons_append, List.cons_append, pairUp, pairUp, pairUp_append hleft, List.cons_append]

/-- The root above two parts is joined from the roots above each if the left part is a full tree and
the right one no larger. -/
theorem merkleRoot_append {k : Nat} {left right : List Digest} (full : left.length = 2 ^ k)
    (nonempty : right ≠ []) (smaller : right.length ≤ left.length) :
    merkleRoot (left ++ right) = join (merkleRoot left) (merkleRoot right) := by
  induction k generalizing left right with
  | zero =>
    rw [full, Nat.pow_zero] at smaller
    obtain ⟨first, rfl⟩ := List.length_eq_one_iff.mp full
    have single : right.length = 1 := by
      have := List.length_pos_iff.mpr nonempty
      omega
    obtain ⟨second, rfl⟩ := List.length_eq_one_iff.mp single
    rfl
  | succ k ih =>
    rw [Nat.pow_succ] at full
    have hleft : (pairUp left).length = 2 ^ k := by
      rw [length_pairUp]
      omega
    have hright : (pairUp right).length ≤ (pairUp left).length := by
      rw [length_pairUp, length_pairUp]
      omega
    have hnonempty : pairUp right ≠ [] := by
      have := List.length_pos_iff.mpr nonempty
      refine List.length_pos_iff.mp ?_
      rw [length_pairUp]
      omega
    calc merkleRoot (left ++ right)
        = merkleRoot (pairUp left ++ pairUp right) := by
          rw [← merkleRoot_pairUp, pairUp_append (by omega)]
      _ = join (merkleRoot (pairUp left)) (merkleRoot (pairUp right)) := ih hleft hnonempty hright
      _ = join (merkleRoot left) (merkleRoot right) := by
          rw [merkleRoot_pairUp, merkleRoot_pairUp]

section Contents
variable {content front back : Bytes} {digest : Digest}

/-- Behind whole chunks a content is cut as if it began there. -/
theorem chunks_append (whole : front.length % chunkSize = 0) :
    chunks (front ++ back) = chunks front ++ chunks back := by
  induction front using chunk_induction with
  | nil => rfl
  | short front nonempty short =>
    rw [Nat.mod_eq_of_lt short] at whole
    exact absurd (List.length_eq_zero_iff.mp whole) nonempty
  | long front long ih =>
    have hlong : chunkSize ≤ (front ++ back).length := by
      rw [List.length_append]
      omega
    have hrest : (front.drop chunkSize).length % chunkSize = 0 := by
      rw [List.length_drop, ← Nat.mod_eq_sub_mod long, whole]
    rw [chunks_of_long hlong, List.take_append_of_le_length long,
      List.drop_append_of_le_length long, ih hrest, chunks_of_long long, List.cons_append]

theorem length_chunks_of_full {k : Nat} (full : front.length = chunkSize * 2 ^ k) :
    (chunks front).length = 2 ^ k := by
  rw [length_chunks, full, chunkSize]
  omega

theorem contentDigest_append {k : Nat} (full : front.length = chunkSize * 2 ^ k)
    (nonempty : back ≠ []) (smaller : back.length ≤ front.length) :
    contentDigest (front ++ back) = join (contentDigest front) (contentDigest back) := by
  have hfront : ((chunks front).map keccak256).length = 2 ^ k := by
    rw [List.length_map, length_chunks_of_full full]
  have hback : (chunks back).map keccak256 ≠ [] := by
    rw [chunks_of_ne_nil nonempty]
    exact List.cons_ne_nil _ _
  have hsmaller :
      ((chunks back).map keccak256).length ≤ ((chunks front).map keccak256).length := by
    rw [List.length_map, List.length_map, length_chunks, length_chunks]
    exact Nat.div_le_div_right (Nat.add_le_add_right smaller _)
  rw [contentDigest_eq_merkleRoot, chunks_append (by rw [full, Nat.mul_mod_right]), List.map_append,
    merkleRoot_append hfront hback hsmaller, ← contentDigest_eq_merkleRoot,
    ← contentDigest_eq_merkleRoot]

theorem contentDigest_of_short (nonempty : content ≠ []) (short : content.length ≤ chunkSize) :
    contentDigest content = keccak256 (zeroFill chunkSize content) := by
  rw [contentDigest_eq_merkleRoot, chunks_of_ne_nil nonempty, List.take_of_length_le short,
    List.drop_of_length_le short]
  rfl

/-- The digest of a content from those of its two parts. The first part is as long as a power of two
of chunks, and the second one no longer; a content of one chunk is not cut. -/
inductive ByHalves : Bytes → Digest → Prop where
  | empty : ByHalves [] (keccak256 [])
  | chunk {content : Bytes} (nonempty : content ≠ []) (short : content.length ≤ 256) :
      ByHalves content (keccak256 (zeroFill 256 content))
  | halves {k : Nat} {front back : Bytes} {first second : Digest}
      (full : front.length = 256 * 2 ^ k) (nonempty : back ≠ [])
      (smaller : back.length ≤ front.length) (hfirst : ByHalves front first)
      (hsecond : ByHalves back second) :
      ByHalves (front ++ back) (keccak256 (first.bytes ++ second.bytes))

theorem ByHalves.contentDigest_eq (h : ByHalves content digest) :
    contentDigest content = digest := by
  induction h with
  | empty => rfl
  | chunk nonempty short => exact contentDigest_of_short nonempty short
  | halves full nonempty smaller _ _ ihFirst ihSecond =>
    rw [contentDigest_append full nonempty smaller, ihFirst, ihSecond, join]

/-- A content of more than one chunk is cut behind the largest power of two of chunks that does not
use it up: what is left is no longer than what was cut off. -/
theorem exists_halves (long : chunkSize < content.length) :
    ∃ k front back, content = front ++ back ∧ front.length = chunkSize * 2 ^ k ∧
      back ≠ [] ∧ back.length ≤ front.length := by
  rw [chunkSize] at long
  have hchunks : (content.length - 1) / 256 ≠ 0 := by omega
  let k := Nat.log 2 ((content.length - 1) / 256)
  have hle : 2 ^ k ≤ (content.length - 1) / 256 := Nat.pow_log_le_self 2 hchunks
  have hlt : (content.length - 1) / 256 < 2 ^ k * 2 :=
    Nat.lt_pow_succ_log_self Nat.one_lt_two ((content.length - 1) / 256)
  have hfront : (content.take (256 * 2 ^ k)).length = 256 * 2 ^ k := by
    rw [List.length_take]
    omega
  have hback : (content.drop (256 * 2 ^ k)).length = content.length - 256 * 2 ^ k :=
    List.length_drop
  refine ⟨k, _, _, (List.take_append_drop (256 * 2 ^ k) content).symm, hfront, ?_, ?_⟩
  · exact List.ne_nil_of_length_pos (by omega)
  · omega

private theorem byHalves_of_length {n : Nat} (hn : content.length = n) :
    ByHalves content (contentDigest content) := by
  -- the induction is on the length, since the parts are not given with the content
  induction n using Nat.strongRecOn generalizing content with
  | ind n ih =>
    by_cases hempty : content = []
    · exact hempty ▸ .empty
    rcases Nat.lt_or_ge chunkSize content.length with hlong | hshort
    · obtain ⟨k, front, back, rfl, full, nonempty, smaller⟩ := exists_halves hlong
      have hback : 0 < back.length := List.length_pos_iff.mpr nonempty
      rw [List.length_append] at hn
      rw [contentDigest_append full nonempty smaller]
      exact .halves full nonempty smaller (ih _ (by omega) rfl) (ih _ (by omega) rfl)
    · rw [contentDigest_of_short hempty hshort]
      exact .chunk hempty hshort

theorem byHalves_iff : ByHalves content digest ↔ contentDigest content = digest :=
  ⟨ByHalves.contentDigest_eq, fun h => h ▸ byHalves_of_length rfl⟩

end Contents

/-- Cut behind a power of two of chunks, a content has the digest joined from those of its parts if
the second part is no longer than the first. Such cuts and the digests of single chunks determine
the digest of every content: it is the root above all its chunks, level by level. -/
theorem contentDigest_halves :
    (∀ (k : Nat) (front back : Bytes), front.length = 256 * 2 ^ k → 0 < back.length →
      back.length ≤ front.length →
        contentDigest (front ++ back) = join (contentDigest front) (contentDigest back)) ∧
    (∀ content : Bytes, 0 < content.length → content.length ≤ 256 →
      contentDigest content = keccak256 (zeroFill 256 content)) ∧
    ∀ (content : Bytes) (digest : Digest),
      (ByHalves content digest ↔ contentDigest content = digest) ∧
        (ByHalves content digest ↔ HasDigest content digest) := by
  refine ⟨fun k front back full positive smaller => ?_, fun content positive short => ?_,
    fun content digest => ⟨byHalves_iff, byHalves_iff.trans hasDigest_iff.symm⟩⟩
  · exact contentDigest_append full (List.length_pos_iff.mp positive) smaller
  · exact contentDigest_of_short (List.length_pos_iff.mp positive) short

def fourChunks : Bytes := List.replicate 1024 7

/-- The last chunk is not full, and it has no partner. -/
def threeChunks : Bytes := List.replicate 600 9

def lastChunk : Bytes := List.replicate 88 9

theorem sevenChunks_halved :
    fourChunks.length = 256 * 2 ^ 2 ∧ 0 < threeChunks.length ∧
      threeChunks.length ≤ fourChunks.length ∧
      contentDigest (fourChunks ++ threeChunks) =
        join (contentDigest fourChunks) (contentDigest threeChunks) ∧
      0 < lastChunk.length ∧ lastChunk.length ≤ 256 ∧
      contentDigest lastChunk = keccak256 (zeroFill 256 lastChunk) := by
  have four : fourChunks.length = 1024 := List.length_replicate
  have three : threeChunks.length = 600 := List.length_replicate
  have last : lastChunk.length = 88 := List.length_replicate
  have positive : 0 < threeChunks.length := by omega
  have smaller : threeChunks.length ≤ fourChunks.length := by omega
  have inhabited : 0 < lastChunk.length := by omega
  have short : lastChunk.length ≤ 256 := by omega
  exact ⟨four, positive, smaller, contentDigest_halves.1 2 _ _ four positive smaller, inhabited,
    short, contentDigest_halves.2.1 _ inhabited short⟩

end HashedTree.ContentHalves
