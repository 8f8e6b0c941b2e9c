import HashedTree.Proofs.ContentPadding

/-!
# The root above a level of digests

What a level and the one above it have to do with each other is said place by place, without going
through the lists: at each place stands the digest of two neighbours, or the last digest as it is if
it has no neighbour. A root is reached by going up until one digest is left, and the digest of a
content is the root above the digests of its chunks.
-/
namespace HashedTree.LevelRoots
open ByteBlocks KeccakDigest DigestCombinators ContentDigest ContentPadding

/-- What moves up for a digest and its right neighbour, if it has one. -/
def paired (left : Digest) : Option Digest → Digest
  | some right => keccak256 (left.bytes ++ right.bytes)
  | none => left

/-- A level of digests and the one above it. -/
def LevelAbove (level above : List Digest) : Prop :=
  ∀ i, above[i]? = level[2 * i]?.map fun left => paired left level[2 * i + 1]?

/-- The digest that is left at the top of a level. -/
inductive RootOf : List Digest → Digest → Prop where
  | top (d : Digest) : RootOf [d] d
  | up {level above : List Digest} {root : Digest} (more : 1 < level.length)
      (next : LevelAbove level above) (h : RootOf above root) : RootOf level root

/-- The digest of a content: that of the empty string, or the root above the digests of its chunks.
Its chunks in a row are the content, with zeros behind it where the last chunk is not full. -/
inductive HasDigest : Bytes → Digest → Prop where
  | empty : HasDigest [] (keccak256 [])
  | root {content : Bytes} {pieces : List Bytes} {digest : Digest}
      (full : ∀ piece ∈ pieces, piece.length = 256) (whole : pieces.flatten = zeroPadded content)
      (h : RootOf (pieces.map keccak256) digest) : HasDigest content digest

theorem getElem?_pairUp (level : List Digest) (i : Nat) :
    (pairUp level)[i]? = level[2 * i]?.map fun left => paired left level[2 * i + 1]? := by
  induction level using pairUp.induct generalizing i with
  | case1 left right rest ih =>
    cases i with
    | zero => rfl
    | succ i =>
      rw [pairUp, List.getElem?_cons_succ, ih]
      rfl
  | case2 level short =>
    rw [pairUp]
    · cases level with
      | nil => rfl
      | cons left rest =>
        cases rest with
        | nil =>
          cases i with
          | zero => rfl
          | succ i => simp [Nat.mul_succ]
        | cons right rest => exact absurd rfl (short left right rest)
    · exact short

theorem levelAbove_iff {level above : List Digest} :
    LevelAbove level above ↔ above = pairUp level := by
  constructor
  · intro next
    refine List.ext_getElem? fun i => ?_
    rw [next, getElem?_pairUp]
  · rintro rfl
    exact getElem?_pairUp level

theorem RootOf.merkleRoot_eq {level : List Digest} {root : Digest} (h : RootOf level root) :
    level ≠ [] ∧ merkleRoot level = root := by
  induction h with
  | top d => exact ⟨List.cons_ne_nil _ _, merkleRoot_singleton d⟩
  | @up level above root more next _ ih =>
    obtain rfl := levelAbove_iff.mp next
    match level, more with
    | first :: second :: rest, _ =>
      exact ⟨List.cons_ne_nil _ _, (merkleRoot_pairUp _).symm.trans ih.2⟩

private theorem rootOf_of_length {n : Nat} {level : List Digest} (nonempty : level ≠ [])
    (hn : level.length = n) : RootOf level (merkleRoot level) := by
  -- the induction is on the length, since the level above is no part of this one
  induction n using Nat.strongRecOn generalizing level with
  | ind n ih =>
    match level, nonempty with
    | [d], _ => exact .top d
    | first :: second :: rest, _ =>
      have shorter := length_pairUp rest
      have next : LevelAbove (first :: second :: rest) (pairUp (first :: second :: rest)) :=
        levelAbove_iff.mpr rfl
      rw [← merkleRoot_pairUp]
      refine .up (by simp) next (ih _ ?_ (by simp [pairUp]) rfl)
      simp only [pairUp, List.length_cons] at hn ⊢
      omega

/-- Every level but an empty one has one root. -/
theorem rootOf_iff {level : List Digest} {root : Digest} :
    RootOf level root ↔ level ≠ [] ∧ merkleRoot level = root := by
  constructor
  · exact RootOf.merkleRoot_eq
  · rintro ⟨nonempty, rfl⟩
    exact rootOf_of_length nonempty rfl

private theorem blocks_flatten {pieces : List Bytes}
    (full : ∀ piece ∈ pieces, piece.length = chunkSize) :
    blocks chunkSize pieces.flatten = pieces := by
  induction pieces with
  | nil => rfl
  | cons piece pieces ih =>
    obtain ⟨hpiece, hpieces⟩ := List.forall_mem_cons.mp full
    have nonempty : (piece :: pieces).flatten ≠ [] := by
      refine List.ne_nil_of_length_pos ?_
      rw [List.flatten_cons, List.length_append, hpiece, chunkSize]
      omega
    rw [blocks_of_ne_nil (by decide) nonempty, List.flatten_cons, List.take_left' hpiece,
      List.drop_left' hpiece, ih hpieces]

theorem eq_chunks {content : Bytes} {pieces : List Bytes}
    (full : ∀ piece ∈ pieces, piece.length = chunkSize)
    (whole : pieces.flatten = zeroPadded content) : pieces = chunks content := by
  rw [← blocks_zeroPadded, ← whole, blocks_flatten full]

theorem contentDigest_eq_merkleRoot (content : Bytes) :
    contentDigest content = merkleRoot ((chunks content).map keccak256) := by
  rw [contentDigest, chunks, List.map_map]
  rfl

/-- Every content has one digest. -/
theorem hasDigest_iff {content : Bytes} {digest : Digest} :
    HasDigest content digest ↔ contentDigest content = digest := by
  constructor
  · intro h
    cases h with
    | empty => rfl
    | root full whole h =>
      obtain rfl := eq_chunks full whole
      rw [contentDigest_eq_merkleRoot, (rootOf_iff.mp h).2]
  · rintro rfl
    by_cases hempty : content = []
    · subst hempty
      exact .empty
    · refine .root (length_of_mem_chunks content) (flatten_chunks content) ?_
      rw [contentDigest_eq_merkleRoot, rootOf_iff, chunks_of_ne_nil hempty]
      exact ⟨List.cons_ne_nil _ _, rfl⟩

end HashedTree.LevelRoots
