import HashedTree.Proofs.TermsOfContents

/-!
# When a link has the digest of a file or of a directory

The digest of a link is that of its target, and nothing in the hashed bytes says so. Unless inputs
collide, a link has the digest of a content or of a directory exactly if its target spells the byte
string that is hashed last there: a padded chunk, one digest, or two digests in a row. Such a target
has 32, 64 or 256 bytes; a link with any other target is told apart from files and directories.
-/
namespace HashedTree.LinkDigests
open ByteBlocks Utf8Text KeccakDigest DigestCombinators ContentDigest ContentPadding HashTerm

/-- The byte strings hashed for a directory whose entries have the given digests, the last first. -/
def directoryInputs : List Digest → List Bytes
  | [] => []
  | [d] => [d.bytes]
  | d :: e :: rest => (d.bytes ++ (directoryHash (e :: rest)).bytes) :: directoryInputs (e :: rest)

/-- What is hashed last for a content that is not empty: its only chunk, or the digests of its two
parts in a row. -/
inductive LastOfContent (content : Bytes) : Bytes → Prop where
  | chunk (nonempty : content ≠ []) (short : content.length ≤ chunkSize) :
      LastOfContent content (zeroFill chunkSize content)
  | parts {left right : HashTerm} (h : ofContent content = .joined left right) :
      LastOfContent content (left.digest.bytes ++ right.digest.bytes)

/-- What is hashed last for a directory that is not empty: the digest of its only entry, or that of
its first one and that of the others in a row. -/
inductive LastOfDirectory : List Digest → Bytes → Prop where
  | alone (d : Digest) : LastOfDirectory [d] d.bytes
  | first (d e : Digest) (rest : List Digest) :
      LastOfDirectory (d :: e :: rest) (d.bytes ++ (directoryHash (e :: rest)).bytes)

section Contents
variable {content bytes : Bytes}

private theorem climb_joined {levels : Nat} {first : HashTerm} {rest : List HashTerm}
    (h : (∃ left right, first = joined left right) ∨ rest ≠ [] ∧ levels ≠ 0) :
    ∃ left right, climb levels (first :: rest) = joined left right := by
  induction levels generalizing first rest with
  | zero =>
    obtain ⟨left, right, rfl⟩ := h.resolve_right fun hmore => hmore.2 rfl
    cases rest with
    | nil => exact ⟨left, right, rfl⟩
    | cons second rest => exact ⟨left, right, rfl⟩
  | succ levels ih =>
    cases rest with
    | nil =>
      obtain ⟨left, right, rfl⟩ := h.resolve_right fun hmore => hmore.1 rfl
      exact ⟨left, right, rfl⟩
    | cons second rest => exact ih (.inl ⟨first, second, rfl⟩)

theorem ofContent_long (long : chunkSize < content.length) :
    ∃ left right, ofContent content = joined left right := by
  have hcontent : content ≠ [] := List.ne_nil_of_length_pos (by omega)
  have hrest : content.drop chunkSize ≠ [] := fun h => by
    have := List.drop_eq_nil_iff.mp h
    omega
  rw [ofContent, chunks_of_ne_nil hcontent, chunks_of_ne_nil hrest, List.map_cons, List.map_cons]
  exact climb_joined (.inr ⟨List.cons_ne_nil _ _, Nat.succ_ne_zero _⟩)

theorem lastInput_ofContent (nonempty : bytes ≠ []) :
    (ofContent content).lastInput = some bytes ↔ LastOfContent content bytes := by
  constructor
  · intro h
    by_cases hempty : content = []
    · subst hempty
      exact absurd (Option.some.inj h).symm nonempty
    rcases Nat.lt_or_ge chunkSize content.length with hlong | hshort
    · obtain ⟨left, right, hjoined⟩ := ofContent_long hlong
      rw [hjoined] at h
      exact Option.some.inj h ▸ .parts hjoined
    · rw [ofContent_short hempty hshort] at h
      exact Option.some.inj h ▸ .chunk hempty hshort
  · rintro (⟨hcontent, hshort⟩ | hjoined)
    · rw [ofContent_short hcontent hshort]
      rfl
    · rw [hjoined]
      rfl

theorem LastOfContent.length (h : LastOfContent content bytes) :
    bytes.length = 256 ∨ bytes.length = 64 := by
  cases h with
  | chunk nonempty short => exact .inl (length_zeroFill short)
  | parts h => exact .inr (by simp [Digest.length_eq])

/-- Unless inputs collide, bytes have the digest of a content exactly if they are hashed last for
it. -/
theorem keccak256_eq_contentDigest_iff (nonempty : bytes ≠ [])
    (free : CollisionFree (bytes :: (ofContent content).inputs)) :
    keccak256 bytes = contentDigest content ↔ LastOfContent content bytes := by
  rw [← lastInput_ofContent nonempty, ← digest_ofContent]
  constructor
  · intro h
    cases hlast : (ofContent content).lastInput with
    | none =>
      have hends := endsInText_ofContent content
      rw [eq_empty_of_lastInput hlast] at hends
      exact hends.elim
    | some input =>
      obtain ⟨hdigest, hmem⟩ := digest_of_lastInput hlast
      rw [hdigest] at h
      rw [free bytes List.mem_cons_self input (List.mem_cons_of_mem _ hmem) h]
  · intro h
    exact (digest_of_lastInput h).1.symm

end Contents

section Directories
variable {digests : List Digest} {bytes : Bytes}

theorem LastOfDirectory.directoryHash_eq (h : LastOfDirectory digests bytes) :
    directoryHash digests = keccak256 bytes ∧ bytes ∈ directoryInputs digests := by
  cases h with
  | alone d => exact ⟨rfl, List.mem_cons_self⟩
  | first d e rest => exact ⟨rfl, List.mem_cons_self⟩

theorem LastOfDirectory.length (h : LastOfDirectory digests bytes) :
    bytes.length = 32 ∨ bytes.length = 64 := by
  cases h with
  | alone d => exact .inl d.length_eq
  | first d e rest => exact .inr (by simp [Digest.length_eq])

theorem exists_lastOfDirectory (nonempty : digests ≠ []) :
    ∃ input, LastOfDirectory digests input := by
  match digests, nonempty with
  | [d], _ => exact ⟨_, .alone d⟩
  | d :: e :: rest, _ => exact ⟨_, .first d e rest⟩

/-- Unless inputs collide, bytes have the digest of a directory that is not empty exactly if they are
hashed last for it. -/
theorem keccak256_eq_directoryHash_iff (nonempty : digests ≠ [])
    (free : CollisionFree (bytes :: directoryInputs digests)) :
    keccak256 bytes = directoryHash digests ↔ LastOfDirectory digests bytes := by
  obtain ⟨input, hinput⟩ := exists_lastOfDirectory nonempty
  obtain ⟨hdigest, hmem⟩ := hinput.directoryHash_eq
  constructor
  · intro h
    rw [hdigest] at h
    rw [free bytes List.mem_cons_self input (List.mem_cons_of_mem _ hmem) h]
    exact hinput
  · intro h
    exact h.directoryHash_eq.1.symm

end Directories

/-- A link passes for a file or a directory exactly if its target is what is hashed last there, and
then the target has 256, 64 or 32 bytes. -/
theorem linkHash_eq_iff {target : String} (nonempty : target ≠ "") :
    (∀ content, CollisionFree (utf8 target :: (ofContent content).inputs) →
      (linkHash target = contentDigest content ↔ LastOfContent content (utf8 target))) ∧
    (∀ digests, digests ≠ [] → CollisionFree (utf8 target :: directoryInputs digests) →
      (linkHash target = directoryHash digests ↔ LastOfDirectory digests (utf8 target))) ∧
    (∀ content, LastOfContent content (utf8 target) →
      (utf8 target).length = 256 ∨ (utf8 target).length = 64) ∧
    ∀ digests, LastOfDirectory digests (utf8 target) →
      (utf8 target).length = 32 ∨ (utf8 target).length = 64 := by
  have hbytes : utf8 target ≠ [] := fun h => nonempty (utf8_injective h)
  exact ⟨fun _ => keccak256_eq_contentDigest_iff hbytes,
    fun _ hdigests => keccak256_eq_directoryHash_iff hdigests, fun _ => LastOfContent.length,
    fun _ => LastOfDirectory.length⟩

/-- A target of as many equal letters. -/
def repeated (count : Nat) : String := String.ofList (List.replicate count 'x')

theorem utf8_repeated (count : Nat) : utf8 (repeated count) = List.replicate count 120 := by
  rw [utf8_eq_flatMap, repeated, String.toList_ofList]
  induction count with
  | zero => rfl
  | succ count ih =>
    rw [List.replicate_succ, List.flatMap_cons, ih]
    rfl

theorem repeated_ne_empty {count : Nat} (positive : 0 < count) : repeated count ≠ "" := by
  intro h
  have hlength := congrArg (fun text => (utf8 text).length) h
  simp only [utf8_repeated, List.length_replicate] at hlength
  exact absurd hlength (Nat.ne_of_gt positive)

private theorem collisionFree_replicate (count : Nat) (s : Bytes) :
    CollisionFree (List.replicate count s) := by
  intro t ht u hu _
  rw [List.eq_of_mem_replicate ht, List.eq_of_mem_replicate hu]

theorem short_link_differs :
    "x" ≠ "" ∧ CollisionFree (utf8 "x" :: (ofContent (utf8 "x")).inputs) ∧
      linkHash "x" ≠ contentDigest (utf8 "x") := by
  have free : CollisionFree (utf8 "x" :: (ofContent (utf8 "x")).inputs) :=
    collisionFree_of_nodup (by decide +kernel)
  have differs := linkHash_eq_iff (by decide : "x" ≠ "")
  refine ⟨by decide, free, fun h => ?_⟩
  have hlength := differs.2.2.1 _ ((differs.1 _ free).mp h)
  exact absurd hlength (by decide)

theorem links_may_pass :
    (¬∀ (target : String) (content : Bytes), target ≠ "" →
      CollisionFree (utf8 target :: (ofContent content).inputs) →
        linkHash target ≠ contentDigest content) ∧
    ¬∀ (target : String) (digests : List Digest), target ≠ "" → digests ≠ [] →
      CollisionFree (utf8 target :: directoryInputs digests) →
        linkHash target ≠ directoryHash digests := by
  constructor
  · intro differ
    have hterm := ofContent_of_length_eq (List.length_replicate (n := 256) (a := (120 : UInt8)))
    refine differ (repeated 256) (List.replicate 256 120) (repeated_ne_empty (by decide)) ?_ ?_
    · rw [utf8_repeated, hterm]
      exact collisionFree_replicate 2 _
    · rw [linkHash, utf8_repeated, ← digest_ofContent, hterm, digest]
  · intro differ
    refine differ (repeated 32) [.ofByte 120] (repeated_ne_empty (by decide))
      (List.cons_ne_nil _ _) ?_ ?_
    · rw [utf8_repeated]
      exact collisionFree_replicate 2 _
    · rw [linkHash, utf8_repeated]
      rfl

end HashedTree.LinkDigests
