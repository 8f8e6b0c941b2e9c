import HashedTree.Proofs.TermsOfContents

/-!
# What the digest of a content binds

Contents of one padded form have one digest. Others have different digests unless two of the byte
strings hashed on the way collide. Neither the number of chunks nor the way in which their digests
are paired is hashed, but the lengths of what is hashed tell a chunk from two digests, and so the
chunks can be read off from the digest upwards.
-/
namespace HashedTree.BoundContents
open ByteBlocks KeccakDigest ContentDigest ContentPadding HashTerm

section Padding
variable {content other : Bytes}

theorem eq_of_zeroPadded_eq (lengths : content.length = other.length)
    (h : zeroPadded content = zeroPadded other) : content = other :=
  (List.append_inj h lengths).1

theorem length_chunks_eq (h : zeroPadded content = zeroPadded other) :
    (chunks content).length = (chunks other).length :=
  congrArg List.length (chunks_eq_iff.mpr h)

/-- Bytes behind a content take new chunks if there is no room left or they are as many as a chunk
holds. -/
theorem length_chunks_append (nonempty : other ≠ [])
    (room : content.length % chunkSize = 0 ∨ chunkSize ≤ other.length) :
    (chunks content).length < (chunks (content ++ other)).length := by
  have hpos : 0 < other.length := List.length_pos_iff.mpr nonempty
  rw [length_chunks, length_chunks, List.length_append]
  rw [chunkSize] at room ⊢
  omega

end Padding

/-- Unless inputs collide, a digest comes from one computation. -/
theorem zeroPadded_eq_of_contentDigest_eq {a b : Bytes}
    (free : CollisionFree ((ofContent a).inputs ++ (ofContent b).inputs))
    (h : contentDigest a = contentDigest b) : zeroPadded a = zeroPadded b := by
  have avoids : (ofContent a).UsesEmpty ∨ (ofContent b).UsesEmpty →
      AvoidsZero ((ofContent a).inputs ++ (ofContent b).inputs) := fun used =>
    (used.elim (not_usesEmpty_ofContent a) (not_usesEmpty_ofContent b)).elim
  rw [← digest_ofContent, ← digest_ofContent] at h
  exact ofContent_eq_iff.mp (eq_of_digest_eq_of_usesEmpty free avoids (separate_ofContent a)
    (separate_ofContent b) (List.subset_append_left _ _) (List.subset_append_right _ _) h)

/-- The digest of a content binds its padded form. So, unless inputs collide, it changes with every
byte, with the number of chunks, and with every chunk that is added, even one of zeros. -/
theorem contentDigest_binds (a b : Bytes) :
    (zeroPadded a = zeroPadded b → contentDigest a = contentDigest b) ∧
      (CollisionFree ((ofContent a).inputs ++ (ofContent b).inputs) →
        (contentDigest a = contentDigest b → zeroPadded a = zeroPadded b) ∧
        (a.length = b.length → a ≠ b → contentDigest a ≠ contentDigest b) ∧
        ((chunks a).length ≠ (chunks b).length → contentDigest a ≠ contentDigest b) ∧
        ∀ more, more ≠ [] → a.length % chunkSize = 0 ∨ chunkSize ≤ more.length →
          b = a ++ more → contentDigest a ≠ contentDigest b) := by
  constructor
  · intro h
    rw [← digest_ofContent, ofContent_eq_iff.mpr h, digest_ofContent]
  · intro free
    have bound := zeroPadded_eq_of_contentDigest_eq free
    have counted (h : (chunks a).length ≠ (chunks b).length) :
        contentDigest a ≠ contentDigest b := fun same => h (length_chunks_eq (bound same))
    refine ⟨bound, fun lengths differ same => ?_, counted, fun more nonempty room extended => ?_⟩
    · exact differ (eq_of_zeroPadded_eq lengths (bound same))
    · subst extended
      exact counted (Nat.ne_of_lt (length_chunks_append nonempty room))

/-- A chunk of zeros. -/
def zeros : Bytes := List.replicate chunkSize 0

theorem length_zeros : zeros.length = chunkSize := List.length_replicate

theorem ofContent_zeros : ofContent zeros = text zeros := ofContent_of_length_eq length_zeros

theorem chunks_more_zeros : chunks (zeros ++ [0]) = [zeros, zeros] := by
  have long : chunkSize ≤ (zeros ++ [0]).length := by
    rw [List.length_append, length_zeros]
    exact Nat.le_add_right _ _
  have filled : zeroFill chunkSize [0] = zeros := (List.replicate_succ (n := 255)).symm
  rw [chunks_of_long long, List.take_left' length_zeros, List.drop_left' length_zeros,
    chunks_of_short (by simp) (by decide), filled]

theorem ofContent_more_zeros : ofContent (zeros ++ [0]) = joined (text zeros) (text zeros) := by
  rw [ofContent, chunks_more_zeros]
  rfl

theorem added_zero_changes_digest :
    CollisionFree ((ofContent zeros).inputs ++ (ofContent (zeros ++ [0])).inputs) ∧
      contentDigest zeros ≠ contentDigest (zeros ++ [0]) := by
  have free : CollisionFree [zeros, (keccak256 zeros).bytes ++ (keccak256 zeros).bytes] :=
    collisionFree_of_nodup (by decide +kernel)
  have inputs : CollisionFree ((ofContent zeros).inputs ++ (ofContent (zeros ++ [0])).inputs) := by
    rw [ofContent_zeros, ofContent_more_zeros]
    exact free.subset (by simp [HashTerm.inputs, digest])
  have binds := (contentDigest_binds zeros (zeros ++ [0])).2 inputs
  have full : zeros.length % chunkSize = 0 := by rw [length_zeros, Nat.mod_self]
  exact ⟨inputs, binds.2.2.2 [0] (by simp) (.inl full) rfl⟩

end HashedTree.BoundContents
