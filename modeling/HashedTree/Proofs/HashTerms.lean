import HashedTree.Proofs.ContentPadding
import Mathlib.Data.List.Nodup

/-!
# How a digest was computed

A term records the computation of a digest: which bytes were hashed, and which digests were hashed
again. Its inputs are the byte strings handed to the hash function on the way. Nothing in them tells
a file from a directory but their lengths: texts are empty or fill a chunk, one digest has 32 bytes
and two have 64. The main statement is that, unless two inputs collide or one has the digest of the
empty directory, equal digests come from equal computations. The second exception does not arise
where the empty directory has no part in either computation.
-/
namespace HashedTree
open ByteBlocks KeccakDigest DigestCombinators ContentDigest ContentPadding

/-- A digest with its computation: the digest of the empty directory, which is not computed at all,
the digest of some bytes, of one digest, or of two digests in a row. -/
inductive HashTerm where
  | empty
  | text (bytes : Bytes)
  | alone (inner : HashTerm)
  | joined (left right : HashTerm)

namespace HashTerm

/-- The digest at the end of the computation. -/
def digest : HashTerm → Digest
  | empty => .zero
  | text bytes => keccak256 bytes
  | alone inner => keccak256 inner.digest.bytes
  | joined left right => join left.digest right.digest

/-- Every byte string that is hashed in the computation. -/
def inputs : HashTerm → List Bytes
  | empty => []
  | text bytes => [bytes]
  | alone inner => inner.digest.bytes :: inner.inputs
  | joined left right => (left.digest.bytes ++ right.digest.bytes) :: (left.inputs ++ right.inputs)

/-- No text is as long as one digest or two. -/
def Separate : HashTerm → Prop
  | empty => True
  | text bytes => bytes.length ≠ 32 ∧ bytes.length ≠ 64
  | alone inner => inner.Separate
  | joined left right => left.Separate ∧ right.Separate

/-- The empty directory has a part in the computation. -/
def UsesEmpty : HashTerm → Prop
  | empty => True
  | text _ => False
  | alone inner => inner.UsesEmpty
  | joined left right => left.UsesEmpty ∨ right.UsesEmpty

/-- The byte string that is hashed last. -/
def lastInput : HashTerm → Option Bytes
  | empty => none
  | text bytes => some bytes
  | alone inner => some inner.digest.bytes
  | joined left right => some (left.digest.bytes ++ right.digest.bytes)

end HashTerm

/-- The hash function takes different strings of a list to different digests. -/
def CollisionFree (strings : List Bytes) : Prop :=
  ∀ s ∈ strings, ∀ t ∈ strings, keccak256 s = keccak256 t → s = t

/-- No string of a list has the digest of the empty directory. -/
def AvoidsZero (strings : List Bytes) : Prop := ∀ s ∈ strings, keccak256 s ≠ .zero

instance (strings : List Bytes) : Decidable (AvoidsZero strings) :=
  inferInstanceAs (Decidable (∀ s ∈ strings, keccak256 s ≠ .zero))

theorem CollisionFree.subset {strings others : List Bytes} (h : CollisionFree strings)
    (sub : others ⊆ strings) : CollisionFree others :=
  fun s hs t ht => h s (sub hs) t (sub ht)

theorem AvoidsZero.subset {strings others : List Bytes} (h : AvoidsZero strings)
    (sub : others ⊆ strings) : AvoidsZero others :=
  fun s hs => h s (sub hs)

theorem collisionFree_of_nodup {strings : List Bytes} (h : (strings.map keccak256).Nodup) :
    CollisionFree strings :=
  fun _ hs _ ht heq => List.inj_on_of_nodup_map h hs ht heq

namespace HashTerm

theorem digest_of_lastInput {term : HashTerm} {input : Bytes} (h : term.lastInput = some input) :
    term.digest = keccak256 input ∧ input ∈ term.inputs := by
  cases term with
  | empty => simp [lastInput] at h
  | text bytes =>
    rw [lastInput, Option.some.injEq] at h
    simp [digest, inputs, h]
  | alone inner =>
    rw [lastInput, Option.some.injEq] at h
    simp [digest, inputs, h]
  | joined left right =>
    rw [lastInput, Option.some.injEq] at h
    simp [digest, join, inputs, h]

theorem eq_empty_of_lastInput {term : HashTerm} (h : term.lastInput = none) : term = empty := by
  cases term <;> simp_all [lastInput]

theorem lastInput_eq_of_digest_eq {strings : List Bytes} (free : CollisionFree strings)
    {a b : HashTerm} (nonzero : a.UsesEmpty ∨ b.UsesEmpty → AvoidsZero strings)
    (ha : a.inputs ⊆ strings) (hb : b.inputs ⊆ strings) (h : a.digest = b.digest) :
    a.lastInput = b.lastInput := by
  cases hinput : a.lastInput with
  | none =>
    obtain rfl := eq_empty_of_lastInput hinput
    cases hother : b.lastInput with
    | none => rfl
    | some other =>
      obtain ⟨hdigest, hmem⟩ := digest_of_lastInput hother
      rw [hdigest] at h
      exact absurd h.symm (nonzero (.inl trivial) other (hb hmem))
  | some input =>
    obtain ⟨hdigest, hmem⟩ := digest_of_lastInput hinput
    cases hother : b.lastInput with
    | none =>
      obtain rfl := eq_empty_of_lastInput hother
      rw [hdigest] at h
      exact absurd h (nonzero (.inr trivial) input (ha hmem))
    | some other =>
      obtain ⟨hdigest', hmem'⟩ := digest_of_lastInput hother
      rw [free input (ha hmem) other (hb hmem') (by rw [← hdigest, ← hdigest', h])]

/-- How many bytes are hashed last. -/
def width (term : HashTerm) : Option Nat := term.lastInput.map List.length

@[simp] theorem width_empty : empty.width = none := rfl

@[simp] theorem width_text (bytes : Bytes) : (text bytes).width = some bytes.length := rfl

@[simp] theorem width_alone (inner : HashTerm) : (alone inner).width = some 32 := by
  simp [width, lastInput, Digest.length_eq]

@[simp] theorem width_joined (left right : HashTerm) : (joined left right).width = some 64 := by
  simp [width, lastInput, Digest.length_eq]

private theorem width_eq_of_digest_eq {strings : List Bytes} (free : CollisionFree strings)
    {a b : HashTerm} (nonzero : a.UsesEmpty ∨ b.UsesEmpty → AvoidsZero strings)
    (ha : a.inputs ⊆ strings) (hb : b.inputs ⊆ strings) (h : a.digest = b.digest) :
    a.width = b.width :=
  congrArg (Option.map List.length) (lastInput_eq_of_digest_eq free nonzero ha hb h)

/-- Equal digests come from equal computations, also where an input has the digest of the empty
directory, if this has no part in them. -/
theorem eq_of_digest_eq_of_usesEmpty {strings : List Bytes} (free : CollisionFree strings)
    {a b : HashTerm} (nonzero : a.UsesEmpty ∨ b.UsesEmpty → AvoidsZero strings)
    (separateA : a.Separate) (separateB : b.Separate) (ha : a.inputs ⊆ strings)
    (hb : b.inputs ⊆ strings) (h : a.digest = b.digest) : a = b := by
  induction a generalizing b with
  | empty =>
    have hlast := lastInput_eq_of_digest_eq free nonzero ha hb h
    exact (eq_empty_of_lastInput hlast.symm).symm
  | text bytes =>
    have hlast := lastInput_eq_of_digest_eq free nonzero ha hb h
    have hwidth := width_eq_of_digest_eq free nonzero ha hb h
    cases b with
    | empty => simp at hwidth
    | text other => rw [Option.some.inj hlast]
    | alone inner => exact absurd (by simpa using hwidth) separateA.1
    | joined left right => exact absurd (by simpa using hwidth) separateA.2
  | alone inner ih =>
    have hlast := lastInput_eq_of_digest_eq free nonzero ha hb h
    have hwidth := width_eq_of_digest_eq free nonzero ha hb h
    cases b with
    | empty => simp at hwidth
    | text other => exact absurd (by simpa using hwidth.symm) separateB.1
    | alone inner' =>
      have hinner := Digest.eq_of_bytes_eq (Option.some.inj hlast)
      have hsub := (List.cons_subset.mp ha).2
      have hsub' : inner'.inputs ⊆ strings := (List.cons_subset.mp hb).2
      have separateB' : inner'.Separate := separateB
      have nonzero' : inner.UsesEmpty ∨ inner'.UsesEmpty → AvoidsZero strings := nonzero
      rw [ih nonzero' separateA separateB' hsub hsub' hinner]
    | joined left right => simp at hwidth
  | joined left right ihLeft ihRight =>
    have hlast := lastInput_eq_of_digest_eq free nonzero ha hb h
    have hwidth := width_eq_of_digest_eq free nonzero ha hb h
    cases b with
    | empty => simp at hwidth
    | text other => exact absurd (by simpa using hwidth.symm) separateB.2
    | alone inner => simp at hwidth
    | joined left' right' =>
      obtain ⟨hleft, hright⟩ := Digest.eq_of_append_eq (Option.some.inj hlast)
      obtain ⟨hsubL, hsubR⟩ := List.append_subset.mp (List.cons_subset.mp ha).2
      obtain ⟨hsubL', hsubR'⟩ := List.append_subset.mp (List.cons_subset.mp hb).2
      have nonzeroL : left.UsesEmpty ∨ left'.UsesEmpty → AvoidsZero strings :=
        fun used => nonzero (used.imp .inl .inl)
      have nonzeroR : right.UsesEmpty ∨ right'.UsesEmpty → AvoidsZero strings :=
        fun used => nonzero (used.imp .inr .inr)
      rw [ihLeft nonzeroL separateA.1 separateB.1 hsubL hsubL' hleft,
        ihRight nonzeroR separateA.2 separateB.2 hsubR hsubR' hright]

/-- Equal digests come from equal computations. -/
theorem eq_of_digest_eq {strings : List Bytes} (free : CollisionFree strings)
    (nonzero : AvoidsZero strings) {a b : HashTerm} (separateA : a.Separate)
    (separateB : b.Separate) (ha : a.inputs ⊆ strings) (hb : b.inputs ⊆ strings)
    (h : a.digest = b.digest) : a = b :=
  eq_of_digest_eq_of_usesEmpty free (fun _ => nonzero) separateA separateB ha hb h

end HashTerm
end HashedTree
