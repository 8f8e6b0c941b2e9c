import HashedTree.Proofs.HashTerms

/-!
# The computations behind contents and directories

The terms are made step by step as the digests are. The texts in the term of a content, from left to
right, are its chunks, so that the way in which digests were paired and promoted need not be known
to recover them. On its right edge the term of a content ends in a text and that of a directory in a
digest hashed alone or in nothing: this is what keeps files and directories apart.
-/
namespace HashedTree.HashTerm
open ByteBlocks KeccakDigest DigestCombinators ContentDigest ContentPadding

/-- The next level: neighbours joined in pairs. -/
def pairUp : List HashTerm → List HashTerm
  | left :: right :: rest => joined left right :: pairUp rest
  | single => single

/-- The only term left after enough levels. -/
def climb : Nat → List HashTerm → HashTerm
  | _, [] => text []
  | _, [term] => term
  | 0, term :: _ => term
  | levels + 1, terms => climb levels (pairUp terms)

/-- The computation of the digest of a content. -/
def ofContent (content : Bytes) : HashTerm :=
  climb (chunks content).length ((chunks content).map text)

/-- The computation of the digest of a directory from those of its entries. -/
def ofEntries : List HashTerm → HashTerm
  | [] => empty
  | [term] => alone term
  | first :: second :: rest => joined first (ofEntries (second :: rest))

theorem ofContent_short {content : Bytes} (nonempty : content ≠ [])
    (short : content.length ≤ chunkSize) :
    ofContent content = text (zeroFill chunkSize content) := by
  rw [ofContent, chunks_of_ne_nil nonempty, List.take_of_length_le short,
    List.drop_of_length_le short]
  rfl

theorem ofContent_of_length_eq {content : Bytes} (h : content.length = chunkSize) :
    ofContent content = text content := by
  have hcontent : content ≠ [] := List.ne_nil_of_length_pos (by rw [h]; decide)
  rw [ofContent_short hcontent (Nat.le_of_eq h), zeroFill_of_length_eq h]

private theorem map_digest_pairUp : ∀ terms : List HashTerm,
    (pairUp terms).map digest = ContentDigest.pairUp (terms.map digest)
  | [] => rfl
  | [_] => rfl
  | left :: right :: rest => by
    simp only [pairUp, List.map_cons, ContentDigest.pairUp, digest, map_digest_pairUp rest]

private theorem digest_climb (levels : Nat) (terms : List HashTerm) :
    (climb levels terms).digest = ContentDigest.climb levels (terms.map digest) := by
  induction levels generalizing terms with
  | zero => rcases terms with _ | ⟨first, _ | ⟨second, rest⟩⟩ <;> rfl
  | succ levels ih =>
    rcases terms with _ | ⟨first, _ | ⟨second, rest⟩⟩
    · rfl
    · rfl
    · rw [climb, ih, map_digest_pairUp]
      · rfl
      · simp
      · simp

theorem digest_ofContent (content : Bytes) :
    (ofContent content).digest = contentDigest content := by
  rw [ofContent, digest_climb, contentDigest, merkleRoot]
  simp only [chunks, List.map_map, List.length_map]
  rfl

theorem digest_ofEntries : ∀ terms : List HashTerm,
    (ofEntries terms).digest = directoryHash (terms.map digest)
  | [] => rfl
  | [_] => rfl
  | first :: second :: rest => by
    simp only [ofEntries, digest, List.map_cons, directoryHash]
    rw [digest_ofEntries (second :: rest), List.map_cons]

/-- The texts of a computation from left to right. -/
def texts : HashTerm → List Bytes
  | empty => []
  | text bytes => [bytes]
  | alone inner => inner.texts
  | joined left right => left.texts ++ right.texts

private theorem flatMap_texts_pairUp : ∀ terms : List HashTerm,
    (pairUp terms).flatMap texts = terms.flatMap texts
  | [] => rfl
  | [_] => rfl
  | left :: right :: rest => by
    simp only [pairUp, List.flatMap_cons, texts, flatMap_texts_pairUp rest, List.append_assoc]

private theorem length_pairUp (terms : List HashTerm) :
    (pairUp terms).length = (terms.length + 1) / 2 := by
  have := ContentDigest.length_pairUp (terms.map digest)
  rwa [← map_digest_pairUp, List.length_map, List.length_map] at this

private theorem texts_climb {levels : Nat} {terms : List HashTerm} (nonempty : terms ≠ [])
    (enough : terms.length ≤ levels) : (climb levels terms).texts = terms.flatMap texts := by
  induction levels generalizing terms with
  | zero => exact absurd (List.length_eq_zero_iff.mp (Nat.le_zero.mp enough)) nonempty
  | succ levels ih =>
    rcases terms with _ | ⟨first, _ | ⟨second, rest⟩⟩
    · exact absurd rfl nonempty
    · simp [climb]
    · have hlength := length_pairUp rest
      rw [climb, ih (by simp [pairUp]), flatMap_texts_pairUp]
      · simp only [pairUp, List.length_cons] at enough ⊢
        omega
      · simp
      · simp

theorem flatten_texts_ofContent (content : Bytes) :
    (ofContent content).texts.flatten = zeroPadded content := by
  rw [← flatten_chunks, ofContent]
  cases hchunks : chunks content with
  | nil => rfl
  | cons first rest =>
    rw [texts_climb (by simp) (by simp)]
    simp [List.flatMap_map, texts, List.flatMap_singleton']

/-- Contents have one computation exactly if their padded forms are the same. -/
theorem ofContent_eq_iff {content other : Bytes} :
    ofContent content = ofContent other ↔ zeroPadded content = zeroPadded other := by
  constructor
  · intro h
    rw [← flatten_texts_ofContent, h, flatten_texts_ofContent]
  · intro h
    rw [ofContent, ofContent, chunks_eq_iff.mpr h]

theorem ofEntries_injective : ∀ {terms others : List HashTerm},
    ofEntries terms = ofEntries others → terms = others
  | [], [], _ => rfl
  | [_], [_], h => by rw [ofEntries, ofEntries, alone.injEq] at h; rw [h]
  | first :: second :: rest, first' :: second' :: rest', h => by
    rw [ofEntries, ofEntries, joined.injEq] at h
    rw [h.1, ofEntries_injective h.2]
  | [], [_], h | [], _ :: _ :: _, h | [_], [], h | [_], _ :: _ :: _, h | _ :: _ :: _, [], h
  | _ :: _ :: _, [_], h => by simp [ofEntries] at h

private theorem forall_pairUp {P : HashTerm → Prop}
    (joined : ∀ left right, P left → P right → P (joined left right)) {terms : List HashTerm}
    (h : ∀ term ∈ terms, P term) : ∀ term ∈ pairUp terms, P term := by
  induction terms using pairUp.induct with
  | case1 left right rest ih =>
    simp only [pairUp, List.mem_cons, forall_eq_or_imp] at h ⊢
    exact ⟨joined left right h.1 h.2.1, ih h.2.2⟩
  | case2 single hsingle =>
    rwa [pairUp]
    exact hsingle

/-- What holds of all chunks and is kept by joining holds of the content. -/
theorem ofContent_induction {P : HashTerm → Prop} {content : Bytes} (nil : P (text []))
    (chunk : ∀ bytes ∈ chunks content, P (text bytes))
    (joined : ∀ left right, P left → P right → P (joined left right)) : P (ofContent content) := by
  have climbs : ∀ (levels : Nat) (terms : List HashTerm), (∀ term ∈ terms, P term) →
      P (climb levels terms) := by
    intro levels
    induction levels with
    | zero =>
      rintro (_ | ⟨first, _ | ⟨second, rest⟩⟩) h
      · exact nil
      · exact h first List.mem_cons_self
      · exact h first List.mem_cons_self
    | succ levels ih =>
      rintro (_ | ⟨first, _ | ⟨second, rest⟩⟩) h
      · exact nil
      · exact h first List.mem_cons_self
      · exact ih _ (forall_pairUp joined h)
  apply climbs
  intro term hterm
  obtain ⟨bytes, hbytes, rfl⟩ := List.mem_map.mp hterm
  exact chunk bytes hbytes

/-- On its right edge, the computation ends in a text. -/
def EndsInText : HashTerm → Prop
  | text _ => True
  | joined _ right => right.EndsInText
  | empty | alone _ => False

theorem endsInText_ofContent (content : Bytes) : (ofContent content).EndsInText :=
  ofContent_induction trivial (fun _ _ => trivial) fun _ _ _ hright => hright

theorem not_endsInText_ofEntries : ∀ terms : List HashTerm, ¬(ofEntries terms).EndsInText
  | [] => id
  | [_] => id
  | _ :: second :: rest => not_endsInText_ofEntries (second :: rest)

/-- No content is hashed the way a directory is. -/
theorem ofContent_ne_ofEntries (content : Bytes) (terms : List HashTerm) :
    ofContent content ≠ ofEntries terms := by
  intro h
  exact not_endsInText_ofEntries terms (h ▸ endsInText_ofContent content)

theorem separate_ofContent (content : Bytes) : (ofContent content).Separate := by
  refine ofContent_induction ⟨by decide, by decide⟩ ?_ fun _ _ hleft hright => ⟨hleft, hright⟩
  intro bytes hbytes
  have hlength := length_of_mem_chunks content bytes hbytes
  rw [chunkSize] at hlength
  exact ⟨by omega, by omega⟩

theorem not_usesEmpty_ofContent (content : Bytes) : ¬(ofContent content).UsesEmpty := by
  refine ofContent_induction (P := fun term => ¬term.UsesEmpty) id (fun _ _ => id) ?_
  exact fun _ _ hleft hright used => used.elim hleft hright

theorem separate_ofEntries : ∀ {terms : List HashTerm}, (∀ term ∈ terms, term.Separate) →
    (ofEntries terms).Separate
  | [], _ => trivial
  | [term], h => h term List.mem_cons_self
  | first :: _ :: _, h =>
    ⟨h first List.mem_cons_self,
      separate_ofEntries fun term hterm => h term (List.mem_cons_of_mem _ hterm)⟩

end HashedTree.HashTerm
