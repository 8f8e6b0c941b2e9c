import HashedTree.Proofs.ReadingSteps

/-!
# A string is read back from its text

Every character is read back from the way it stands inside a string: as itself, as a short escape or
as an escape by code unit.
-/
namespace HashedTree.StringReading
open Json JsonReading ReadingSteps AsciiCharacters

variable {ε : Type} {r : Reader ε} {frames : List Frame} {role : StringRole} {read rest : List Char}

/-- A digit of a code unit takes one byte and has its value. -/
theorem hexValue?_hexDigit {n : Nat} (h : n < 16) :
    (hexDigit n).utf8Size = 1 ∧ hexValue? (hexDigit n) = some n := by
  have all : ∀ n : Fin 16, (hexDigit n).utf8Size = 1 ∧ hexValue? (hexDigit n) = some n.val := by
    decide
  exact all ⟨n, h⟩

theorem unitValue?_hexDigit {n : Nat} (h : n < 256) :
    unitValue? ['0', '0', hexDigit (n / 16), hexDigit (n % 16)] = some n := by
  have hhigh := (hexValue?_hexDigit (Nat.div_lt_of_lt_mul h : n / 16 < 16)).2
  have hlow := (hexValue?_hexDigit (Nat.mod_lt n (by decide) : n % 16 < 16)).2
  have hzero : hexValue? '0' = some 0 := rfl
  simp only [unitValue?, hzero, hhigh, hlow, Option.bind_eq_bind, Option.bind_some]
  congr 1
  omega

theorem readFrom_shortEscape (attentive : Attentive r) (quiet : Quiet r frames) {letter c : Char}
    (hletter : letter ≠ 'u') (hescape : shortEscape? letter = some c) :
    r.readFrom ⟨frames, .string role .plain read⟩ ('\\' :: letter :: rest) =
      r.readFrom ⟨frames, .string role .plain (c :: read)⟩ rest := by
  have hstart : step false ⟨frames, .string role .plain read⟩ '\\' =
      .ok ⟨frames, .string role .escape read⟩ := rfl
  have hend : step false ⟨frames, .string role .escape read⟩ letter =
      .ok ⟨frames, .string role .plain (c :: read)⟩ := by
    simp only [step, stepString, if_neg hletter, hescape]
  rw [readFrom_of_step attentive (quiet _) hstart trivial trivial,
    readFrom_of_step attentive (quiet _) hend trivial trivial]

theorem step_unit {leading : Option Nat} {pending : List Char} {c : Char}
    (more : (pending ++ [c]).foldl (fun size c => size + c.utf8Size) 0 < 4) :
    step false ⟨frames, .string role (.unit leading pending) read⟩ c =
      .ok ⟨frames, .string role (.unit leading (pending ++ [c])) read⟩ := by
  simp only [step, stepString, if_pos more]

private theorem readFrom_unit (attentive : Attentive r) (quiet : Quiet r frames) {c : Char}
    (control : c.toNat < 0x20) :
    r.readFrom ⟨frames, .string role .plain read⟩
        ('\\' :: 'u' :: '0' :: '0' :: hexDigit (c.toNat / 16) :: hexDigit (c.toNat % 16) :: rest) =
      r.readFrom ⟨frames, .string role .plain (c :: read)⟩ rest := by
  have hhigh := (hexValue?_hexDigit (by omega : c.toNat / 16 < 16)).1
  have hlow := (hexValue?_hexDigit (by omega : c.toNat % 16 < 16)).1
  have hzero : Char.utf8Size '0' = 1 := rfl
  have hstart : step false ⟨frames, .string role .plain read⟩ '\\' =
      .ok ⟨frames, .string role .escape read⟩ := rfl
  have hmark : step false ⟨frames, .string role .escape read⟩ 'u' =
      .ok ⟨frames, .string role (.unit none []) read⟩ := rfl
  have hunit : afterUnit false role none c.toNat read = .ok (.string role .plain (c :: read)) := by
    simp only [afterUnit, Bool.false_eq_true, if_false]
    rw [if_neg (by omega), if_neg (by omega), Char.ofNat_toNat]
  have hlast : step false
      ⟨frames, .string role (.unit none ['0', '0', hexDigit (c.toNat / 16)]) read⟩
        (hexDigit (c.toNat % 16)) = .ok ⟨frames, .string role .plain (c :: read)⟩ := by
    have hvalue := unitValue?_hexDigit (by omega : c.toNat < 256)
    simp only [step, stepString, List.cons_append, List.nil_append, List.foldl_cons, List.foldl_nil,
      hzero, hhigh, hlow, hvalue, hunit]
    rfl
  rw [readFrom_of_step attentive (quiet _) hstart trivial trivial,
    readFrom_of_step attentive (quiet _) hmark trivial trivial,
    readFrom_of_step attentive (quiet _) (step_unit (by decide)) trivial trivial,
    readFrom_of_step attentive (quiet _) (step_unit (by decide)) trivial trivial,
    readFrom_of_step attentive (quiet _) (step_unit (by simp [hzero, hhigh])) trivial trivial]
  exact readFrom_of_step attentive (quiet _) hlast trivial trivial

/-- A character is read back from the way it stands inside a string. -/
theorem readFrom_escapedChar (attentive : Attentive r) (quiet : Quiet r frames) (c : Char) :
    r.readFrom ⟨frames, .string role .plain read⟩ (escapedChar c ++ rest) =
      r.readFrom ⟨frames, .string role .plain (c :: read)⟩ rest := by
  rw [escapedChar]
  split
  · next hquote =>
    subst hquote
    exact readFrom_shortEscape attentive quiet (by decide) rfl
  split
  · next hbackslash =>
    subst hbackslash
    exact readFrom_shortEscape attentive quiet (by decide) rfl
  split
  · next hquote hbackslash hplain =>
    have hstep : step false ⟨frames, .string role .plain read⟩ c =
        .ok ⟨frames, .string role .plain (c :: read)⟩ := by
      simp only [step, stepString]
      rw [if_neg hquote, if_neg hbackslash, if_neg (by omega)]
    exact readFrom_of_step attentive (quiet _) hstep trivial trivial
  split
  · next hline =>
    subst hline
    exact readFrom_shortEscape attentive quiet (by decide) rfl
  split
  · next hreturn =>
    subst hreturn
    exact readFrom_shortEscape attentive quiet (by decide) rfl
  split
  · next htab =>
    subst htab
    exact readFrom_shortEscape attentive quiet (by decide) rfl
  split
  · next hback =>
    have hescape : shortEscape? 'b' = some c := by rw [← c.ofNat_toNat, hback]; rfl
    exact readFrom_shortEscape attentive quiet (by decide) hescape
  split
  · next hfeed =>
    have hescape : shortEscape? 'f' = some c := by rw [← c.ofNat_toNat, hfeed]; rfl
    exact readFrom_shortEscape attentive quiet (by decide) hescape
  · next hplain _ _ _ _ _ => exact readFrom_unit attentive quiet (by omega)

theorem readFrom_characters (attentive : Attentive r) (quiet : Quiet r frames) (text : List Char) :
    r.readFrom ⟨frames, .string role .plain read⟩ (text.flatMap escapedChar ++ rest) =
      r.readFrom ⟨frames, .string role .plain (text.reverse ++ read)⟩ rest := by
  induction text generalizing read with
  | nil => rfl
  | cons c text ih =>
    rw [List.flatMap_cons, List.append_assoc, readFrom_escapedChar attentive quiet, ih,
      List.reverse_cons, List.append_assoc, List.singleton_append]

/-- Behind its opening quote, a string is read up to its closing one. -/
theorem readFrom_text (attentive : Attentive r) (quiet : Quiet r frames) (text : String) {t : State}
    (hend : deliverString role text.toList.reverse frames = .ok t) (settled : Settled t) :
    r.readFrom ⟨frames, .string role .plain []⟩
        (text.toList.flatMap escapedChar ++ ['"'] ++ rest) = r.readFrom t rest := by
  rw [List.append_assoc, readFrom_characters attentive quiet, List.append_nil]
  exact readFrom_of_step attentive (quiet _) hend trivial settled

theorem readFrom_string (attentive : Attentive r) (quiet : Quiet r frames) (text : String) :
    r.readFrom ⟨frames, .value⟩ (stringText text ++ rest) =
      r.readFrom (deliver (.string text) frames) rest := by
  have hend : deliverString .value text.toList.reverse frames =
      .ok (deliver (.string text) frames) := by
    rw [deliverString, List.reverse_reverse, String.ofList_toList]
  have hstart : step false ⟨frames, .value⟩ '"' = .ok ⟨frames, .string .value .plain []⟩ := rfl
  rw [stringText, List.cons_append,
    readFrom_of_step attentive (quiet _) hstart trivial trivial]
  exact readFrom_text attentive quiet text hend (settled_deliver _ _)

/-- Where the name of a member may begin. -/
def NameMode (mode : Mode) : Prop := mode = .firstName ∨ mode = .name

theorem readFrom_name {done : List (String × Json)} {previous : String} {outer : List Frame}
    (attentive : Attentive r) (quiet : Quiet r (.object done previous :: outer)) {mode : Mode}
    (hmode : NameMode mode) (name : String) :
    r.readFrom ⟨.object done previous :: outer, mode⟩ (stringText name ++ rest) =
      r.readFrom ⟨.object done name :: outer, .colon⟩ rest := by
  have hend : deliverString .name name.toList.reverse (.object done previous :: outer) =
      .ok ⟨.object done name :: outer, .colon⟩ := by
    simp only [deliverString, List.reverse_reverse, String.ofList_toList]
  have hstart : step false ⟨.object done previous :: outer, mode⟩ '"' =
      .ok ⟨.object done previous :: outer, .string .name .plain []⟩ := by
    rcases hmode with rfl | rfl <;> rfl
  have settled : Settled ⟨.object done previous :: outer, mode⟩ := by
    rcases hmode with rfl | rfl <;> trivial
  rw [stringText, List.cons_append,
    readFrom_of_step attentive (quiet _) hstart settled trivial]
  exact readFrom_text attentive quiet name hend trivial

end HashedTree.StringReading
