import HashedTree.LogFilter
import Mathlib.Data.List.Find
import Mathlib.Data.List.Induction

/-!
# Which directive decides about an event

A filter keeps its directives with the longest target in front, and each subject once. So of the
directives whose target an event's target begins with, the longest decides, and of several equally
long ones, which all have the same target, the last one that was given.
-/
namespace HashedTree.LogDirective

/-- A directive that concerns the events of a target, whatever fields they have. -/
structure AboutTarget (d : LogDirective) : Prop where
  span : d.span = none
  fields : d.fields = []

/-- It is the longest of the directives that match a target, and the last of the longest. -/
structure Decides (d : LogDirective) (target : String) (directives : List LogDirective) :
    Prop where
  matching : d.matchesTarget target
  longest : ∃ before after, directives = before ++ d :: after ∧
    (∀ e ∈ before, e.matchesTarget target → e.targetLength ≤ d.targetLength) ∧
    ∀ e ∈ after, e.matchesTarget target → e.targetLength < d.targetLength

/-- The longest targets stand in front. -/
def Descending (kept : List LogDirective) : Prop :=
  kept.Pairwise fun d e => e.targetLength ≤ d.targetLength

variable {target : String} {d e : LogDirective} {kept directives : List LogDirective}

theorem Decides.mem (h : d.Decides target directives) : d ∈ directives := by
  obtain ⟨before, after, rfl, -⟩ := h.longest
  exact List.mem_append_right _ List.mem_cons_self

theorem Decides.le (h : d.Decides target directives) (mem : e ∈ directives)
    (matching : e.matchesTarget target) : e.targetLength ≤ d.targetLength := by
  obtain ⟨before, after, rfl, hbefore, hafter⟩ := h.longest
  obtain mem | mem := List.mem_append.mp mem
  · exact hbefore e mem matching
  · obtain rfl | mem := List.mem_cons.mp mem
    · exact Nat.le_refl _
    · exact Nat.le_of_lt (hafter e mem matching)

/-- A further directive decides if none that matches is longer. -/
theorem decides_last (matching : d.matchesTarget target)
    (longest : ∀ e ∈ directives, e.matchesTarget target → e.targetLength ≤ d.targetLength) :
    d.Decides target (directives ++ [d]) :=
  ⟨matching, directives, [], rfl, longest, List.forall_mem_nil _⟩

/-- Otherwise the decision stays as it was. -/
theorem Decides.append (h : e.Decides target directives)
    (shorter : d.matchesTarget target → d.targetLength < e.targetLength) :
    e.Decides target (directives ++ [d]) := by
  obtain ⟨before, after, rfl, hbefore, hafter⟩ := h.longest
  refine ⟨h.matching, before, after ++ [d], by simp, hbefore, ?_⟩
  rw [List.forall_mem_append]
  exact ⟨hafter, List.forall_mem_singleton.mpr shorter⟩

theorem Decides.unique (h : d.Decides target directives) (h' : e.Decides target directives) :
    d = e := by
  obtain ⟨before, after, split, hbefore, hafter⟩ := h.longest
  obtain ⟨before', after', split', hbefore', hafter'⟩ := h'.longest
  have shorter : ¬(e ∈ after ∧ d ∈ before') := fun ⟨later, earlier⟩ =>
    Nat.not_le.mpr (hafter e later h'.matching) (hbefore' d earlier h.matching)
  have longer : ¬(d ∈ after' ∧ e ∈ before) := fun ⟨later, earlier⟩ =>
    Nat.not_le.mpr (hafter' d later h.matching) (hbefore e earlier h'.matching)
  obtain ⟨between, rfl, htail⟩ | ⟨between, rfl, htail⟩ :=
    List.append_eq_append_iff.mp (split.symm.trans split')
  · cases between with
    | nil => exact (List.cons.inj htail).1
    | cons first between =>
      obtain ⟨rfl, rfl⟩ := List.cons.inj htail
      exact absurd (by simp) shorter
  · cases between with
    | nil => exact (List.cons.inj htail).1.symm
    | cons first between =>
      obtain ⟨rfl, rfl⟩ := List.cons.inj htail
      exact absurd (by simp) longer

/-! ### Inserting -/

theorem target_eq_of_sameSubject (same : d.sameSubject e = true) : d.target = e.target := by
  simp only [sameSubject, Bool.and_eq_true, decide_eq_true_eq] at same
  exact same.1

theorem targetLength_congr (same : d.target = e.target) : d.targetLength = e.targetLength := by
  rw [targetLength, targetLength, same]

theorem matchesTarget_congr (same : d.target = e.target) :
    d.matchesTarget target = e.matchesTarget target := by
  rw [matchesTarget, matchesTarget, same]

theorem le_of_outranks (h : d.outranks e = true) : e.targetLength ≤ d.targetLength := by
  rw [outranks] at h
  split at h
  · exact Nat.le_of_lt (of_decide_eq_true h)
  · omega

theorem le_of_not_outranks (h : ¬d.outranks e = true) : d.targetLength ≤ e.targetLength := by
  rw [outranks] at h
  split at h
  · exact Nat.not_lt.mp (mt decide_eq_true h)
  · omega

theorem eq_of_start {start longer : String} (h : start.toList <+: longer.toList)
    (same : start.utf8ByteSize = longer.utf8ByteSize) : start = longer := by
  obtain ⟨rest, hrest⟩ := h
  have whole : longer = start ++ String.ofList rest := by
    apply String.toList_injective
    rw [String.toList_append, String.toList_ofList, hrest]
  have nothing : String.ofList rest = "" := by
    rw [whole, String.utf8ByteSize_append] at same
    exact String.utf8ByteSize_eq_zero_iff.mp (by omega)
  rw [whole, nothing, String.append_empty]

/-- Two directives about targets that match a target and are equally long have one subject. -/
theorem sameSubject_of_matching (hd : d.AboutTarget) (he : e.AboutTarget)
    (matching : d.matchesTarget target) (matching' : e.matchesTarget target)
    (same : d.targetLength = e.targetLength) : d.sameSubject e = true := by
  simp only [sameSubject, hd.fields, he.fields, decide_true, Bool.and_true, decide_eq_true_eq]
  simp only [matchesTarget, targetLength] at matching matching' same
  cases hstart : d.target with
  | none =>
    cases hstart' : e.target with
    | none => rfl
    | some start' => simp [hstart, hstart'] at same
  | some start =>
    cases hstart' : e.target with
    | none => simp [hstart, hstart'] at same
    | some start' =>
      simp only [hstart, hstart', List.isPrefixOf_iff_prefix, Option.map_some, Option.getD_some,
        Nat.add_right_cancel_iff] at matching matching' same
      obtain h | h := List.prefix_or_prefix_of_prefix matching matching'
      · rw [eq_of_start h same]
      · rw [eq_of_start h same.symm]

theorem mem_insertInto (h : e ∈ d.insertInto kept) : e = d ∨ e ∈ kept := by
  induction kept with
  | nil => exact .inl (List.mem_singleton.mp h)
  | cons first rest ih =>
    rw [insertInto] at h
    split at h
    · obtain rfl | h := List.mem_cons.mp h
      · exact .inl rfl
      · exact .inr (List.mem_cons_of_mem _ h)
    split at h
    · exact List.mem_cons.mp h
    · obtain rfl | h := List.mem_cons.mp h
      · exact .inr List.mem_cons_self
      · exact (ih h).imp id (List.mem_cons_of_mem _)

theorem Descending.insertInto (h : Descending kept) : Descending (d.insertInto kept) := by
  induction kept with
  | nil => exact List.pairwise_singleton _ _
  | cons first rest ih =>
    obtain ⟨hfirst, hrest⟩ := List.pairwise_cons.mp h
    rw [LogDirective.insertInto]
    split
    case isTrue same =>
      have length := targetLength_congr (target_eq_of_sameSubject same)
      exact List.pairwise_cons.mpr ⟨fun e he => length ▸ hfirst e he, hrest⟩
    case isFalse other =>
      split
      case isTrue above =>
        have first_le := le_of_outranks above
        refine List.pairwise_cons.mpr ⟨?_, h⟩
        rw [List.forall_mem_cons]
        exact ⟨first_le, fun e he => Nat.le_trans (hfirst e he) first_le⟩
      case isFalse below =>
        refine List.pairwise_cons.mpr ⟨?_, ih hrest⟩
        intro e he
        obtain rfl | he := mem_insertInto he
        · exact le_of_not_outranks below
        · exact hfirst e he

/-- The first kept directive that matches a target. -/
def found? (target : String) (kept : List LogDirective) : Option LogDirective :=
  kept.find? (·.matchesTarget target)

theorem found?_cons (target : String) (d : LogDirective) (kept : List LogDirective) :
    found? target (d :: kept) =
      if d.matchesTarget target then some d else found? target kept := by
  rw [found?, List.find?_cons]
  cases d.matchesTarget target <;> rfl

theorem Descending.le_of_found (h : Descending (d :: kept))
    (hfound : found? target (d :: kept) = some e) : e.targetLength ≤ d.targetLength := by
  obtain rfl | mem := List.mem_cons.mp (List.mem_of_find?_eq_some hfound)
  · exact Nat.le_refl _
  · exact (List.pairwise_cons.mp h).1 e mem

/-- A directive that is inserted is found if it matches and no longer one was found before. -/
theorem found?_insertInto (descending : Descending kept) (about : d.AboutTarget)
    (aboutAll : ∀ e ∈ kept, e.AboutTarget) :
    found? target (d.insertInto kept) =
      if d.matchesTarget target ∧
          ∀ e, found? target kept = some e → e.targetLength ≤ d.targetLength
      then some d else found? target kept := by
  induction kept with
  | nil => simp [LogDirective.insertInto, found?]
  | cons first rest ih =>
    obtain ⟨aboutFirst, aboutRest⟩ := List.forall_mem_cons.mp aboutAll
    rw [LogDirective.insertInto]
    split
    case isTrue same =>
      have target_eq := target_eq_of_sameSubject same
      rw [found?_cons, found?_cons, matchesTarget_congr target_eq]
      by_cases matching : first.matchesTarget target
      · simp [matching, targetLength_congr target_eq]
      · simp [matching]
    case isFalse other =>
      split
      case isTrue above =>
        rw [found?_cons]
        by_cases matching : d.matchesTarget target
        · have longest : ∀ e, found? target (first :: rest) = some e →
              e.targetLength ≤ d.targetLength := fun e he =>
            Nat.le_trans (descending.le_of_found he) (le_of_outranks above)
          rw [if_pos matching, if_pos ⟨matching, longest⟩]
        · rw [if_neg matching, if_neg fun h => matching h.1]
      case isFalse below =>
        rw [found?_cons, found?_cons, ih (List.pairwise_cons.mp descending).2 aboutRest]
        by_cases matching : first.matchesTarget target
        · -- both match, so equally long ones would have the same subject
          have longer : ¬(d.matchesTarget target ∧ first.targetLength ≤ d.targetLength) :=
            fun ⟨hd, le⟩ => other (sameSubject_of_matching about aboutFirst hd matching
              (Nat.le_antisymm (le_of_not_outranks below) le))
          simp only [matching, if_true, Option.some.injEq, forall_eq', if_neg longer]
        · simp only [matching, Bool.false_eq_true, if_false]

/-! ### A whole filter -/

/-- What is found decides, and nothing is found only where nothing matches. -/
def FindsDecisive (target : String) (directives : List LogDirective) :
    Option LogDirective → Prop
  | some d => d.Decides target directives
  | none => ∀ e ∈ directives, ¬e.matchesTarget target

theorem FindsDecisive.insertInto {found : Option LogDirective}
    (h : FindsDecisive target directives found) :
    FindsDecisive target (directives ++ [d])
      (if d.matchesTarget target ∧ ∀ e, found = some e → e.targetLength ≤ d.targetLength
        then some d else found) := by
  split
  case isTrue last =>
    obtain ⟨matching, longest⟩ := last
    refine decides_last matching fun e he hmatch => ?_
    cases found with
    | none => exact absurd hmatch (h e he)
    | some before => exact Nat.le_trans (h.le he hmatch) (longest before rfl)
  case isFalse not =>
    cases found with
    | none =>
      have noMatch : ¬d.matchesTarget target := fun hmatch => not ⟨hmatch, nofun⟩
      exact List.forall_mem_append.mpr ⟨h, List.forall_mem_singleton.mpr noMatch⟩
    | some before =>
      refine Decides.append h fun hmatch => Nat.lt_of_not_le fun le => not ⟨hmatch, ?_⟩
      rintro _ ⟨⟩
      exact le

/-- What inserting one directive after the other comes to. -/
def arranged (directives : List LogDirective) : List LogDirective :=
  directives.foldl (fun kept d => d.insertInto kept) []

theorem arranged_append (directives : List LogDirective) (d : LogDirective) :
    arranged (directives ++ [d]) = d.insertInto (arranged directives) := by
  rw [arranged, List.foldl_append]
  rfl

theorem mem_of_mem_arranged (h : e ∈ arranged directives) : e ∈ directives := by
  induction directives using List.reverseRecOn with
  | nil => exact h
  | append_singleton directives d ih =>
    rw [arranged_append] at h
    obtain rfl | h := mem_insertInto h
    · exact List.mem_append_right _ List.mem_cons_self
    · exact List.mem_append_left _ (ih h)

theorem descending_arranged (directives : List LogDirective) :
    Descending (arranged directives) := by
  induction directives using List.reverseRecOn with
  | nil => exact List.Pairwise.nil
  | append_singleton directives d ih =>
    rw [arranged_append]
    exact ih.insertInto

theorem findsDecisive_arranged (about : ∀ e ∈ directives, e.AboutTarget) :
    FindsDecisive target directives (found? target (arranged directives)) := by
  induction directives using List.reverseRecOn with
  | nil => exact List.forall_mem_nil _
  | append_singleton directives d ih =>
    obtain ⟨aboutBefore, aboutLast⟩ := List.forall_mem_append.mp about
    rw [arranged_append, found?_insertInto (descending_arranged directives)
      (List.forall_mem_singleton.mp aboutLast) fun e he => aboutBefore e (mem_of_mem_arranged he)]
    exact (ih aboutBefore).insertInto

end HashedTree.LogDirective

namespace HashedTree.LogFilter
open LogDirective

variable {directives : List LogDirective}

theorem ofDirectives_of_about (about : ∀ d ∈ directives, d.AboutTarget) :
    ofDirectives directives = ⟨arranged directives, []⟩ := by
  have noSpan : ∀ d ∈ directives, d.aboutSpans = false := fun d hd => by
    simp [aboutSpans, (about d hd).span, (about d hd).fields]
  have spans : directives.filter (·.aboutSpans) = [] := by
    simpa [List.filter_eq_nil_iff] using noSpan
  have events : directives.filter (fun d => !d.aboutSpans) = directives := by
    simpa [List.filter_eq_self] using noSpan
  rw [ofDirectives, spans, events, arranged]
  simp

/-- A directive that is added later counts as the last one. -/
theorem add_ofDirectives {d : LogDirective} (about : ∀ e ∈ directives ++ [d], e.AboutTarget) :
    (ofDirectives directives).add d = ofDirectives (directives ++ [d]) := by
  obtain ⟨aboutBefore, aboutLast⟩ := List.forall_mem_append.mp about
  have last : d.AboutTarget := List.forall_mem_singleton.mp aboutLast
  have events : d.aboutEvents = true := by simp [aboutEvents, last.span, last.fields]
  rw [ofDirectives_of_about about, ofDirectives_of_about aboutBefore, add, if_pos events,
    arranged_append]

/-- An event passes exactly if the directive that decides about its target admits its level. -/
theorem passes_iff_decides (about : ∀ d ∈ directives, d.AboutTarget) (level : LogLevel)
    (target : String) (fields : List String) :
    (ofDirectives directives).passes level target fields ↔
      ∃ d : LogDirective, d.Decides target directives ∧ d.threshold.admits level := by
  have found : (ofDirectives directives).ofEvents.find? (fun d =>
      d.matchesTarget target && d.fields.all fun f => fields.contains f.name) =
      found? target (arranged directives) := by
    rw [ofDirectives_of_about about, found?]
    refine List.find?_congr fun d hd => ?_
    rw [(about d (mem_of_mem_arranged hd)).fields, List.all_nil, Bool.and_true]
  have decisive : FindsDecisive target directives (found? target (arranged directives)) :=
    findsDecisive_arranged about
  rw [passes, found]
  cases hfound : found? target (arranged directives) with
  | none =>
    rw [hfound] at decisive
    simp only [Bool.false_eq_true, false_iff]
    rintro ⟨d, hd, -⟩
    exact decisive d hd.mem hd.matching
  | some d =>
    rw [hfound] at decisive
    constructor
    · exact fun admits => ⟨d, decisive, admits⟩
    · rintro ⟨e, he, admits⟩
      exact decisive.unique he ▸ admits

end HashedTree.LogFilter
