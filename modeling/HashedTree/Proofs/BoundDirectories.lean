import HashedTree.Proofs.LinkDigests

/-!
# What the digest of a directory binds

The digest of a directory binds the whole list of the digests of its entries, with their order and
their number, unless two of the byte strings hashed on the way collide or one of them has the digest
of the empty directory. No length is hashed: a list ends where 32 bytes are hashed instead of 64.
-/
namespace HashedTree.BoundDirectories
open ByteBlocks KeccakDigest DigestCombinators LinkDigests

variable {digests others : List Digest} {strings : List Bytes} {bytes : Bytes}

theorem directoryHash_cons (d : Digest) {rest : List Digest} (nonempty : rest ≠ []) :
    directoryHash (d :: rest) = join d (directoryHash rest) := by
  cases rest with
  | nil => exact absurd rfl nonempty
  | cons e rest => rfl

/-- A directory is hashed from its last entry backwards. -/
theorem directoryHash_concat (digests : List Digest) (last : Digest) :
    directoryHash (digests ++ [last]) =
      digests.reverse.foldl (fun hash d => join d hash) (keccak256 last.bytes) := by
  rw [List.foldl_reverse]
  induction digests with
  | nil => rfl
  | cons d digests ih => rw [List.cons_append, directoryHash_cons d (by simp), ih, List.foldr_cons]

theorem directoryHash_eq_zero_iff (nonzero : AvoidsZero strings)
    (sub : directoryInputs digests ⊆ strings) : directoryHash digests = .zero ↔ digests = [] := by
  constructor
  · intro h
    by_contra nonempty
    obtain ⟨input, hinput⟩ := exists_lastOfDirectory nonempty
    obtain ⟨hdigest, hmem⟩ := hinput.directoryHash_eq
    exact nonzero input (sub hmem) (hdigest.symm.trans h)
  · rintro rfl
    rfl

/-- What is hashed last for one of two directories of one digest is hashed last for the other. -/
theorem last_of_directoryHash_eq (free : CollisionFree strings)
    (nonzero : AvoidsZero strings) (sub : directoryInputs digests ⊆ strings)
    (sub' : directoryInputs others ⊆ strings) (same : directoryHash digests = directoryHash others)
    (h : LastOfDirectory digests bytes) : LastOfDirectory others bytes := by
  obtain ⟨hdigest, hmem⟩ := h.directoryHash_eq
  have nonempty : others ≠ [] := by
    rintro rfl
    exact nonzero bytes (sub hmem) (hdigest.symm.trans same)
  obtain ⟨input, hinput⟩ := exists_lastOfDirectory nonempty
  obtain ⟨hdigest', hmem'⟩ := hinput.directoryHash_eq
  rw [hdigest, hdigest'] at same
  exact free bytes (sub hmem) input (sub' hmem') same ▸ hinput

theorem eq_singleton_of_last {d : Digest} (h : LastOfDirectory others d.bytes) : others = [d] := by
  generalize hbytes : d.bytes = bytes at h
  cases h with
  | alone e => rw [Digest.eq_of_bytes_eq hbytes]
  | first e second rest =>
    have hlength := congrArg List.length hbytes
    simp [Digest.length_eq] at hlength

theorem eq_cons_of_last {d hash : Digest} (h : LastOfDirectory others (d.bytes ++ hash.bytes)) :
    ∃ e rest, others = d :: e :: rest ∧ hash = directoryHash (e :: rest) := by
  generalize hbytes : d.bytes ++ hash.bytes = bytes at h
  cases h with
  | alone e =>
    have hlength := congrArg List.length hbytes
    simp [Digest.length_eq] at hlength
  | first first e rest =>
    obtain ⟨rfl, rfl⟩ := Digest.eq_of_append_eq hbytes
    exact ⟨e, rest, rfl, rfl⟩

theorem eq_of_directoryHash_eq (free : CollisionFree strings) (nonzero : AvoidsZero strings)
    (sub : directoryInputs digests ⊆ strings) (sub' : directoryInputs others ⊆ strings)
    (same : directoryHash digests = directoryHash others) : digests = others := by
  induction digests using directoryInputs.induct generalizing others with
  | case1 => exact ((directoryHash_eq_zero_iff nonzero sub').mp same.symm).symm
  | case2 d =>
    have last := last_of_directoryHash_eq free nonzero sub sub' same (.alone d)
    exact (eq_singleton_of_last last).symm
  | case3 d e rest ih =>
    have last := last_of_directoryHash_eq free nonzero sub sub' same (.first d e rest)
    obtain ⟨e', rest', rfl, hrest⟩ := eq_cons_of_last last
    rw [ih (List.cons_subset.mp sub).2 (List.cons_subset.mp sub').2 hrest]

/-- The digest of a directory binds the list of the digests of its entries: unless inputs collide or
give zero, lists of one digest are the same, and only the empty one has the digest zero. -/
theorem directoryHash_binds
    (free : CollisionFree (directoryInputs digests ++ directoryInputs others))
    (nonzero : AvoidsZero (directoryInputs digests ++ directoryInputs others)) :
    (directoryHash digests = directoryHash others ↔ digests = others) ∧
      (directoryHash digests = .zero ↔ digests = []) ∧
      ∀ rest last, digests = rest ++ [last] → directoryHash digests =
        rest.reverse.foldl (fun hash d => join d hash) (keccak256 last.bytes) := by
  have sub := List.subset_append_left (directoryInputs digests) (directoryInputs others)
  have sub' := List.subset_append_right (directoryInputs digests) (directoryInputs others)
  refine ⟨⟨eq_of_directoryHash_eq free nonzero sub sub', congrArg directoryHash⟩,
    directoryHash_eq_zero_iff nonzero sub, ?_⟩
  rintro rest last rfl
  exact directoryHash_concat rest last

def flatEntries : List Digest := [.ofByte 1, .ofByte 2, .ofByte 3]

/-- The second and the third entry are in a directory of their own. -/
def nestedEntries : List Digest := [.ofByte 1, directoryHash [.ofByte 2, .ofByte 3]]

theorem nestedEntries_change_digest :
    CollisionFree (directoryInputs flatEntries ++ directoryInputs nestedEntries) ∧
      AvoidsZero (directoryInputs flatEntries ++ directoryInputs nestedEntries) ∧
      directoryHash flatEntries ≠ directoryHash nestedEntries ∧
      directoryHash flatEntries ≠ .zero ∧
      directoryHash flatEntries =
        join (.ofByte 1) (join (.ofByte 2) (keccak256 (Digest.ofByte 3).bytes)) := by
  have free : CollisionFree (directoryInputs flatEntries ++ directoryInputs nestedEntries) :=
    collisionFree_of_nodup (by decide +kernel)
  have nonzero : AvoidsZero (directoryInputs flatEntries ++ directoryInputs nestedEntries) := by
    decide +kernel
  obtain ⟨binds, zero, backwards⟩ := directoryHash_binds free nonzero
  refine ⟨free, nonzero, fun same => ?_, fun hzero => ?_, ?_⟩
  · exact absurd (congrArg List.length (binds.mp same)) (by decide)
  · exact absurd (zero.mp hzero) (List.cons_ne_nil _ _)
  · have folded := backwards [.ofByte 1, .ofByte 2] (.ofByte 3) rfl
    simpa only [List.foldl_reverse, List.foldr_cons, List.foldr_nil] using folded

end HashedTree.BoundDirectories
