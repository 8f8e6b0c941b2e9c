import HashedTree.Proofs.NodeSchema
import HashedTree.Proofs.Outcomes
import Mathlib.Tactic.MkIffOfInductiveProp

/-!
# What is collected from members

The kind of an object is that of its only tag. A field of that kind is met at most once among the
members, at any place, and members of other names are passed over.
-/
namespace HashedTree.CollectedFields
open NodeDocument NodeSchema Outcomes

variable {top : Bool} {kind : NodeKind} {members : List (String × Json)} {name : String} {v : Json}

section Tags

theorem kindOfTag_eq_ok {tag : Json} : kindOfTag top tag = .ok kind ↔ IsTag top kind tag := by
  constructor
  · intro h
    cases tag with
    | string word =>
      simp only [kindOfTag, kindOfWord] at h
      split at h
      · next found hfound =>
        obtain rfl := Except.ok.inj h
        have hword : found.word = word := by simpa using List.find?_some hfound
        exact hword ▸ .word
      · cases h
    | integer index =>
      simp only [kindOfTag] at h
      split at h
      · cases h
      · next hindex =>
        simp only [not_or, Bool.not_eq_true, Int.not_lt] at hindex
        split at h
        · next found hfound =>
          obtain rfl := Except.ok.inj h
          obtain ⟨n, rfl⟩ := Int.eq_ofNat_of_zero_le hindex.2
          have hn : kindIndex found = n := by
            rcases n with _ | _ | _ | n
            · cases hfound
              rfl
            · cases hfound
              rfl
            · cases hfound
              rfl
            · cases hfound
          exact hn ▸ .index hindex.1
        · cases h
    | _ => cases h
  · rintro (_ | below)
    · cases kind <;> rfl
    · subst below
      cases kind <;> rfl

theorem kindOfMembers_some_eq_ok {seen : NodeKind} :
    kindOfMembers top (some seen) members = .ok kind ↔ valuesOf "type" members = [] ∧ seen = kind := by
  induction members with
  | nil => simp [kindOfMembers]
  | cons member members ih =>
    obtain ⟨name, value⟩ := member
    by_cases htype : name = "type"
    · subst htype
      simp [kindOfMembers, valuesOf_cons_self]
    · simp [kindOfMembers, htype, valuesOf_cons_of_ne htype, ih]

/-- The kind of an object is that of its only tag. -/
theorem kindOfMembers_eq_ok :
    kindOfMembers top none members = .ok kind ↔
      ∃ tag, valuesOf "type" members = [tag] ∧ IsTag top kind tag := by
  induction members with
  | nil => simp [kindOfMembers]
  | cons member members ih =>
    obtain ⟨name, value⟩ := member
    by_cases htype : name = "type"
    · subst htype
      rw [kindOfMembers, if_pos rfl, Option.isSome_none, if_neg Bool.false_ne_true, bind_eq_ok,
        valuesOf_cons_self]
      simp only [kindOfTag_eq_ok, kindOfMembers_some_eq_ok, List.cons.injEq]
      constructor
      · rintro ⟨found, isTag, hrest, rfl⟩
        exact ⟨value, ⟨rfl, hrest⟩, isTag⟩
      · rintro ⟨tag, ⟨rfl, hrest⟩, isTag⟩
        exact ⟨kind, isTag, hrest, rfl⟩
    · rw [kindOfMembers, if_neg htype, valuesOf_cons_of_ne htype, ih]

end Tags

section Fields

/-- What becomes of a field when the given values are met one after the other. -/
inductive Meets {α : Type} (read : Json → Except Mismatch α) : Option α → List Json → Option α → Prop where
  | absent (field : Option α) : Meets read field [] field
  | once {value : Json} {a : α} (h : read value = .ok a) : Meets read none [value] (some a)

theorem meets_cons {α : Type} {read : Json → Except Mismatch α} {field result : Option α}
    {value : Json} {values : List Json} :
    Meets read field (value :: values) result ↔
      field = none ∧ ∃ a, read value = .ok a ∧ Meets read (some a) values result := by
  constructor
  · rintro (_ | h)
    exact ⟨rfl, _, h, .absent _⟩
  · rintro ⟨rfl, a, ha, hmeets⟩
    cases hmeets
    exact .once ha

section Members
variable {d result : Draft}

/-- A field is taken in and the rest of the members is read. -/
private theorem claimedMembers_of_once {α : Type} {field : Option α} {read : Except Mismatch α}
    {take : Option α → Draft} :
    ((once name field read).map take).bind (claimedMembers kind · members) = .ok result ↔
      field = none ∧ ∃ a, read = .ok a ∧ claimedMembers kind (take (some a)) members = .ok result := by
  cases field with
  | some a => simp [once]
  | none => cases read <;> simp [once]

theorem claimedMembers_cons_name :
    claimedMembers kind d (("name", v) :: members) = .ok result ↔
      d.name = none ∧ ∃ a, stringOf v = .ok a ∧
        claimedMembers kind { d with name := some a } members = .ok result := by
  cases kind <;> rw [claimedMembers] <;> exact claimedMembers_of_once

theorem claimedMembers_cons_hash :
    claimedMembers kind d (("hash", v) :: members) = .ok result ↔
      d.hash = none ∧ ∃ a, Digest.ofJson v = .ok a ∧
        claimedMembers kind { d with hash := some a } members = .ok result := by
  cases kind <;> rw [claimedMembers] <;> exact claimedMembers_of_once

theorem claimedMembers_cons_size :
    claimedMembers .file d (("size", v) :: members) = .ok result ↔
      d.size = none ∧ ∃ a, NodeDocument.sizeOf v = .ok a ∧
        claimedMembers .file { d with size := some a } members = .ok result := by
  rw [claimedMembers]
  exact claimedMembers_of_once

theorem claimedMembers_cons_entries :
    claimedMembers .directory d (("entries", v) :: members) = .ok result ↔
      d.entries = none ∧ ∃ a, claimedEntries v = .ok a ∧
        claimedMembers .directory { d with entries := some a } members = .ok result := by
  rw [claimedMembers]
  exact claimedMembers_of_once

theorem claimedMembers_cons_link :
    claimedMembers .link d (("link", v) :: members) = .ok result ↔
      d.target = none ∧ ∃ a, stringOf v = .ok a ∧
        claimedMembers .link { d with target := some a } members = .ok result := by
  rw [claimedMembers]
  exact claimedMembers_of_once

theorem claimedMembers_cons_other (hname : name ≠ "name") (hhash : name ≠ "hash")
    (hown : name ≠ ownField kind) :
    claimedMembers kind d ((name, v) :: members) = claimedMembers kind d members := by
  cases kind with
  | file =>
    have hsize : name ≠ "size" := hown
    simp only [claimedMembers, if_neg hname, if_neg hhash, if_neg hsize, ok_bind]
  | directory =>
    have hentries : name ≠ "entries" := hown
    simp only [claimedMembers, if_neg hname, if_neg hhash, if_neg hentries, ok_bind]
  | link =>
    have hlink : name ≠ "link" := hown
    simp only [claimedMembers, if_neg hname, if_neg hhash, if_neg hlink, ok_bind]

end Members

/-- The values of the field that belongs to a kind; nodes of other kinds do not have it. -/
def ownValues (kind owner : NodeKind) (members : List (String × Json)) : List Json :=
  if kind = owner then valuesOf (ownField owner) members else []

/-- The fields behind members, when there were some in front of them. -/
@[mk_iff]
structure Collects (kind : NodeKind) (d : Draft) (members : List (String × Json)) (result : Draft) :
    Prop where
  name : Meets stringOf d.name (valuesOf "name" members) result.name
  hash : Meets Digest.ofJson d.hash (valuesOf "hash" members) result.hash
  size : Meets NodeDocument.sizeOf d.size (ownValues kind .file members) result.size
  entries : Meets claimedEntries d.entries (ownValues kind .directory members) result.entries
  target : Meets stringOf d.target (ownValues kind .link members) result.target

theorem meets_nil {α : Type} {read : Json → Except Mismatch α} {field result : Option α} :
    Meets read field [] result ↔ field = result := by
  constructor
  · rintro ⟨⟩
    rfl
  · rintro rfl
    exact .absent _

theorem ownValues_cons_of_ne {owner : NodeKind} {other : String} (h : other ≠ ownField kind) :
    ownValues kind owner ((other, v) :: members) = ownValues kind owner members := by
  by_cases howner : kind = owner
  · subst howner
    rw [ownValues, ownValues, if_pos rfl, if_pos rfl, valuesOf_cons_of_ne h]
  · rw [ownValues, ownValues, if_neg howner, if_neg howner]

theorem ownValues_cons_self :
    ownValues kind kind ((ownField kind, v) :: members) = v :: ownValues kind kind members := by
  rw [ownValues, ownValues, if_pos rfl, if_pos rfl, valuesOf_cons_self]

theorem ownValues_of_ne {owner : NodeKind} (h : kind ≠ owner) : ownValues kind owner members = [] :=
  if_neg h

section Collecting
variable {d result : Draft}

theorem collects_cons_name :
    Collects kind d (("name", v) :: members) result ↔
      d.name = none ∧ ∃ a, stringOf v = .ok a ∧
        Collects kind { d with name := some a } members result := by
  have hne : "name" ≠ "hash" ∧ "name" ≠ ownField kind := by cases kind <;> decide
  simp only [collects_iff, meets_cons, valuesOf_cons_self, valuesOf_cons_of_ne hne.1,
    ownValues_cons_of_ne hne.2]
  constructor
  · rintro ⟨⟨hnone, a, ha, hmeets⟩, hothers⟩
    exact ⟨hnone, a, ha, hmeets, hothers⟩
  · rintro ⟨hnone, a, ha, hmeets, hothers⟩
    exact ⟨⟨hnone, a, ha, hmeets⟩, hothers⟩

theorem collects_cons_hash :
    Collects kind d (("hash", v) :: members) result ↔
      d.hash = none ∧ ∃ a, Digest.ofJson v = .ok a ∧
        Collects kind { d with hash := some a } members result := by
  have hne : "hash" ≠ "name" ∧ "hash" ≠ ownField kind := by cases kind <;> decide
  simp only [collects_iff, meets_cons, valuesOf_cons_self, valuesOf_cons_of_ne hne.1,
    ownValues_cons_of_ne hne.2]
  constructor
  · rintro ⟨hname, ⟨hnone, a, ha, hmeets⟩, hothers⟩
    exact ⟨hnone, a, ha, hname, hmeets, hothers⟩
  · rintro ⟨hnone, a, ha, hname, hmeets, hothers⟩
    exact ⟨hname, ⟨hnone, a, ha, hmeets⟩, hothers⟩

theorem collects_cons_size :
    Collects .file d (("size", v) :: members) result ↔
      d.size = none ∧ ∃ a, NodeDocument.sizeOf v = .ok a ∧
        Collects .file { d with size := some a } members result := by
  have hself : ownValues .file .file (("size", v) :: members) =
      v :: ownValues .file .file members := ownValues_cons_self
  have hne : "size" ≠ "name" ∧ "size" ≠ "hash" := by decide
  have hother : NodeKind.file ≠ .directory ∧ NodeKind.file ≠ .link := by decide
  simp only [collects_iff, meets_cons, hself, valuesOf_cons_of_ne hne.1, valuesOf_cons_of_ne hne.2,
    ownValues_of_ne hother.1, ownValues_of_ne hother.2]
  constructor
  · rintro ⟨hname, hhash, ⟨hnone, a, ha, hmeets⟩, hothers⟩
    exact ⟨hnone, a, ha, hname, hhash, hmeets, hothers⟩
  · rintro ⟨hnone, a, ha, hname, hhash, hmeets, hothers⟩
    exact ⟨hname, hhash, ⟨hnone, a, ha, hmeets⟩, hothers⟩

theorem collects_cons_entries :
    Collects .directory d (("entries", v) :: members) result ↔
      d.entries = none ∧ ∃ a, claimedEntries v = .ok a ∧
        Collects .directory { d with entries := some a } members result := by
  have hself : ownValues .directory .directory (("entries", v) :: members) =
      v :: ownValues .directory .directory members := ownValues_cons_self
  have hne : "entries" ≠ "name" ∧ "entries" ≠ "hash" := by decide
  have hother : NodeKind.directory ≠ .file ∧ NodeKind.directory ≠ .link := by decide
  simp only [collects_iff, meets_cons, hself, valuesOf_cons_of_ne hne.1, valuesOf_cons_of_ne hne.2,
    ownValues_of_ne hother.1, ownValues_of_ne hother.2]
  constructor
  · rintro ⟨hname, hhash, hsize, ⟨hnone, a, ha, hmeets⟩, hothers⟩
    exact ⟨hnone, a, ha, hname, hhash, hsize, hmeets, hothers⟩
  · rintro ⟨hnone, a, ha, hname, hhash, hsize, hmeets, hothers⟩
    exact ⟨hname, hhash, hsize, ⟨hnone, a, ha, hmeets⟩, hothers⟩

theorem collects_cons_link :
    Collects .link d (("link", v) :: members) result ↔
      d.target = none ∧ ∃ a, stringOf v = .ok a ∧
        Collects .link { d with target := some a } members result := by
  have hself : ownValues .link .link (("link", v) :: members) =
      v :: ownValues .link .link members := ownValues_cons_self
  have hne : "link" ≠ "name" ∧ "link" ≠ "hash" := by decide
  have hother : NodeKind.link ≠ .file ∧ NodeKind.link ≠ .directory := by decide
  simp only [collects_iff, meets_cons, hself, valuesOf_cons_of_ne hne.1, valuesOf_cons_of_ne hne.2,
    ownValues_of_ne hother.1, ownValues_of_ne hother.2]
  constructor
  · rintro ⟨hname, hhash, hsize, hentries, ⟨hnone, a, ha, hmeets⟩⟩
    exact ⟨hnone, a, ha, hname, hhash, hsize, hentries, hmeets⟩
  · rintro ⟨hnone, a, ha, hname, hhash, hsize, hentries, hmeets⟩
    exact ⟨hname, hhash, hsize, hentries, ⟨hnone, a, ha, hmeets⟩⟩

theorem collects_cons_other (hname : name ≠ "name") (hhash : name ≠ "hash")
    (hown : name ≠ ownField kind) :
    Collects kind d ((name, v) :: members) result ↔ Collects kind d members result := by
  simp only [collects_iff, valuesOf_cons_of_ne hname, valuesOf_cons_of_ne hhash,
    ownValues_cons_of_ne hown]

/-- The fields of a node are collected member by member. -/
theorem claimedMembers_eq_ok :
    claimedMembers kind d members = .ok result ↔ Collects kind d members result := by
  induction members generalizing d with
  | nil =>
    simp only [claimedMembers, Except.ok.injEq, collects_iff, valuesOf_nil, ownValues, ite_self,
      meets_nil]
    cases d
    cases result
    simp
  | cons member members ih =>
    obtain ⟨name, value⟩ := member
    by_cases hname : name = "name"
    · subst hname
      simp only [claimedMembers_cons_name, collects_cons_name, ih]
    by_cases hhash : name = "hash"
    · subst hhash
      simp only [claimedMembers_cons_hash, collects_cons_hash, ih]
    by_cases hown : name = ownField kind
    · subst hown
      cases kind with
      | file => simp only [ownField, claimedMembers_cons_size, collects_cons_size, ih]
      | directory => simp only [ownField, claimedMembers_cons_entries, collects_cons_entries, ih]
      | link => simp only [ownField, claimedMembers_cons_link, collects_cons_link, ih]
    · rw [claimedMembers_cons_other hname hhash hown, collects_cons_other hname hhash hown, ih]

end Collecting

theorem Meets.value {α : Type} {read : Json → Except Mismatch α} {values : List Json}
    {result : Option α} (h : Meets read none values result) :
    ∃ value : Option Json, values = value.toList ∧ (∀ v ∈ value, ∃ a, read v = .ok a) ∧
      (result.isSome → value.isSome) := by
  cases h with
  | absent => exact ⟨none, rfl, nofun, id⟩
  | @once value a h => exact ⟨some value, rfl, by simpa using ⟨a, h⟩, fun _ => rfl⟩

end Fields

end HashedTree.CollectedFields
