import HashedTree.LogFilter
import Mathlib.Data.List.DropRight

/-!
# Directives made of a target and a level

A directive such as `cache=debug` is what the settings say about a module. If the target is a path of
plain names and the level has no comma, the directive is refused exactly if its level is unknown.
-/
namespace HashedTree.LogDirective
open CharacterClasses

/-- A target of letters, digits and what stands between the names of a path. -/
def PlainTarget (target : String) : Prop :=
  target ≠ "" ∧ ∀ c ∈ target.toList, mayStart c

instance (target : String) : Decidable (PlainTarget target) :=
  decidable_of_iff (target ≠ "" ∧ target.toList.all mayStart) (by simp [PlainTarget])

/-- The directive for a module is none. -/
def Refused (entry : String × String) : Prop :=
  ∃ fault, parse (entry.1 ++ "=" ++ entry.2).toList = .error fault

section Characters
variable {c : Char}

theorem exists_of_covered {ranges : List (Nat × Nat)} {code : Nat}
    (h : InvisibleCharacters.covered ranges code = true) :
    ∃ range ∈ ranges, range.1 ≤ code ∧ code ≤ range.2 := by
  induction ranges with
  | nil => cases h
  | cons range ranges ih =>
    rw [InvisibleCharacters.covered] at h
    split at h
    · cases h
    · rcases Bool.or_eq_true _ _ ▸ h with here | later
      · exact ⟨range, List.mem_cons_self, by omega, of_decide_eq_true here⟩
      · obtain ⟨other, hother, hcode⟩ := ih later
        exact ⟨other, List.mem_cons_of_mem _ hother, hcode⟩

theorem isBlank_of_mayStart (h : mayStart c) : isBlank c = false := by
  have apart : ∀ range ∈ blanks, ∀ code ∈ List.range' range.1 (range.2 + 1 - range.1),
      mayStart (Char.ofNat code) = false := by decide +kernel
  rw [Bool.eq_false_iff]
  intro blank
  obtain ⟨range, hrange, hlow, hhigh⟩ := exists_of_covered blank
  have refused := apart range hrange c.toNat (List.mem_range'_1.mpr (by omega))
  rw [Char.ofNat_toNat, h] at refused
  cases refused

theorem ne_of_mayStart (h : mayStart c) (mark : Char) (hmark : mayStart mark = false) :
    c ≠ mark := by
  rintro rfl
  rw [h] at hmark
  cases hmark

end Characters

section Reading
variable {d : LogDirective} {done cs text : List Char}

/-- A text that does not begin with a blank loses nothing but blanks at its end. -/
theorem exists_blanks_behind_trim (front : ∀ c ∈ text.head?, isBlank c = false) :
    ∃ behind, text = trim text ++ behind ∧ ∀ c ∈ behind, isBlank c := by
  have kept : text.dropWhile isBlank = text := by
    cases text with
    | nil => rfl
    | cons c rest => exact List.dropWhile_cons_of_neg (by simp [front c rfl])
  refine ⟨text.rtakeWhile isBlank, ?_, fun c hc => List.mem_rtakeWhile_imp hc⟩
  rw [trim, kept]
  exact List.rdropWhile_append_rtakeWhile.symm

/-- Behind a target and an equals sign, trimming takes blanks off the level only. -/
theorem trim_directive {target : List Char} (plain : ∀ c ∈ target, mayStart c)
    (nonempty : target ≠ []) (level : List Char) :
    ∃ kept behind, level = kept ++ behind ∧
      trim (target ++ '=' :: level) = target ++ '=' :: kept := by
  have front : ∀ c ∈ (target ++ '=' :: level).head?, isBlank c = false := by
    cases target with
    | nil => exact absurd rfl nonempty
    | cons c rest => simpa using isBlank_of_mayStart (plain c List.mem_cons_self)
  obtain ⟨behind, hbehind, blank⟩ := exists_blanks_behind_trim front
  have noEquals : '=' ∉ behind := fun h => absurd (blank '=' h) (by decide)
  rcases List.append_eq_append_iff.mp hbehind with ⟨kept, htrim, hlevel⟩ | ⟨rest, -, hrest⟩
  · cases kept with
    | nil =>
      rw [List.nil_append] at hlevel
      exact absurd (hlevel ▸ List.mem_cons_self) noEquals
    | cons mark kept =>
      rw [List.cons_append, List.cons.injEq] at hlevel
      obtain ⟨rfl, hlevel⟩ := hlevel
      exact ⟨kept, behind, hlevel, htrim⟩
  · refine absurd ?_ noEquals
    rw [hrest]
    exact List.mem_append_right _ List.mem_cons_self

/-- The characters of a part, each kept as it is seen. -/
def asSeen (cs : List Char) : List (Char × Char) := cs.map fun c => (c, c)

theorem zip_eq_asSeen (behind : List Char) : cs.zip (cs ++ behind) = asSeen cs := by
  induction cs with
  | nil => rfl
  | cons c cs ih => rw [List.cons_append, List.zip_cons_cons, ih, asSeen, asSeen, List.map_cons]

theorem run_target (plain : ∀ c ∈ cs, mayStart c) (rest : List (Char × Char)) :
    run (.levelOrTarget done) d (asSeen cs ++ rest) =
      run (.levelOrTarget (cs.reverse ++ done)) d rest := by
  induction cs generalizing done with
  | nil => rfl
  | cons c cs ih =>
    obtain ⟨hc, hcs⟩ := List.forall_mem_cons.mp plain
    have step_c : step (.levelOrTarget done) d c c = .ok (.levelOrTarget (c :: done), d) := by
      simp [step, ne_of_mayStart hc '=' (by decide), ne_of_mayStart hc '[' (by decide),
        ne_of_mayStart hc ',' (by decide)]
    show run _ d ((c, c) :: (asSeen cs ++ rest)) = _
    rw [run, step_c, List.reverse_cons, List.append_assoc]
    exact ih hcs

theorem run_level (noComma : ',' ∉ cs) :
    run (.level done) d (asSeen cs) = .ok (.level (cs.reverse ++ done), d) := by
  induction cs generalizing done with
  | nil => rfl
  | cons c cs ih =>
    obtain ⟨hc, hcs⟩ := not_or.mp (List.mem_cons.not.mp noComma)
    have step_c : step (.level done) d c c = .ok (.level (c :: done), d) := by
      simp [step, Ne.symm hc]
    show run _ d ((c, c) :: asSeen cs) = _
    rw [run, step_c, List.reverse_cons, List.append_assoc]
    exact ih hcs

end Reading

/-- A directive for a plain target has that target, and the level behind the equals sign. -/
theorem parse_plain {target level : List Char} (plain : ∀ c ∈ target, mayStart c)
    (nonempty : target ≠ []) (noComma : ',' ∉ level) :
    parse (target ++ '=' :: level) =
      withLevel { all with target := some (String.ofList target) } level := by
  obtain ⟨kept, behind, rfl, htrim⟩ := trim_directive plain nonempty level
  have keptNoComma : ',' ∉ kept := fun h => noComma (List.mem_append_left _ h)
  have whole : target ++ '=' :: (kept ++ behind) = (target ++ '=' :: kept) ++ behind := by simp
  -- blanks at the end are only left out of what is looked at: `behind` joins the level again
  rw [parse, htrim, whole, zip_eq_asSeen, List.drop_left]
  cases target with
  | nil => exact absurd rfl nonempty
  | cons first rest =>
    obtain ⟨hfirst, hrest⟩ := List.forall_mem_cons.mp plain
    have begins : run .start all (asSeen (first :: rest ++ '=' :: kept)) =
        run (.levelOrTarget [first]) all (asSeen rest ++ ('=', '=') :: asSeen kept) := by
      simp [asSeen, run, step, hfirst, ne_of_mayStart hfirst '[' (by decide)]
    have reads : run (.levelOrTarget (rest.reverse ++ [first])) all (('=', '=') :: asSeen kept) =
        .ok (.level kept.reverse, { all with target := some (String.ofList (first :: rest)) }) := by
      rw [run]
      simp [step, run_level keptNoComma, textOf]
    rw [begins, run_target hrest, reads]
    simp [Except.bind]

theorem withLevel_eq_error_iff (d : LogDirective) (text : List Char) :
    (∃ fault, withLevel d text = .error fault) ↔ LogThreshold.ofText? text = none := by
  cases text with
  | nil => simp [withLevel, LogThreshold.ofText?]
  | cons c cs =>
    cases h : LogThreshold.ofText? (c :: cs) with
    | none => simp [withLevel, h]
    | some threshold => simp [withLevel, h]

/-- What is said about a module is refused exactly if its level is unknown. -/
theorem refused_iff {target level : String} (plain : PlainTarget target)
    (noComma : ',' ∉ level.toList) :
    Refused (target, level) ↔ LogThreshold.ofText? level.toList = none := by
  obtain ⟨hempty, hplain⟩ := plain
  have nonempty : target.toList ≠ [] := fun h => hempty (String.toList_eq_nil_iff.mp h)
  have written : (target ++ "=" ++ level).toList = target.toList ++ '=' :: level.toList := by
    simp [String.toList_append]
  rw [Refused, written, parse_plain hplain nonempty noComma, withLevel_eq_error_iff]

end HashedTree.LogDirective
