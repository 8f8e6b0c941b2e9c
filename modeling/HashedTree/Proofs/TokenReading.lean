import HashedTree.Proofs.DocumentGrammar
import HashedTree.Proofs.NumeralReading
import HashedTree.Proofs.StringReading

/-!
# Numerals and strings are read as they are written

A numeral goes through its sign, whole digits, fraction and exponent in turn. A string gathers the
characters of its pieces, and half of a character makes it malformed.
-/
namespace HashedTree.TokenReading
open JsonReading ReadingSteps StringReading NumeralReading DocumentGrammar
open AsciiCharacters Outcomes

variable {ε : Type} {r : Reader ε} {frames : List Frame} {t t₁ t₂ rest : List Char}
  {negative : Bool} {place : NumeralPlace} {whole : List Char} {fraction : Option (List Char)}
  {exponent : Option Int}

/-- The whole digits of a numeral have been read, and nothing else. -/
inductive AtWhole : NumeralPlace → List Char → Prop where
  | zero : AtWhole .zero ['0']
  | digits (digits : List Char) : AtWhole (.whole digits) digits.reverse

/-- A numeral has been read up to where its exponent may begin. -/
inductive AtFraction : NumeralPlace → List Char → Option (List Char) → Prop where
  | whole {place : NumeralPlace} {whole : List Char} (h : AtWhole place whole) :
      AtFraction place whole none
  | fraction (whole digits : List Char) :
      AtFraction (.fraction whole digits) whole.reverse (some digits.reverse)

theorem ended?_exponent (whole : List Char) (fraction : Option (List Char)) (minus : Bool)
    (digits : List Char) :
    ended? negative (.exponent whole fraction minus digits) =
      some ⟨negative, whole.reverse, fraction.map List.reverse,
        some (signed minus (natural digits.reverse))⟩ := by
  have hdecimal : digits.foldr (fun c n => n * 10 + JsonNumeral.digitValue c) 0 =
      natural digits.reverse := by
    rw [natural, Nat.ofDigitChars_eq_foldl, List.foldl_reverse]
    simp only [JsonNumeral.digitValue, Nat.mul_comm]
    rfl
  rw [← hdecimal]
  cases minus <;> rfl

theorem AtFraction.ended? (h : AtFraction place whole fraction) :
    JsonReading.ended? negative place = some ⟨negative, whole, fraction, none⟩ := by
  rcases h with ⟨_ | digits⟩ | ⟨whole, digits⟩ <;> rfl

section Numerals
variable (attentive : Attentive r) (quiet : Quiet r frames)
include attentive quiet

theorem readFrom_wholePart (hsign : Sign negative t t₁) (hwhole : Whole whole t₁ rest) :
    ∃ place, AtWhole place whole ∧
      r.readFrom ⟨frames, .value⟩ t = r.readFrom ⟨frames, .numeral negative place⟩ rest := by
  have hdigits : ∀ {c digits}, (∀ d ∈ digits, isDigit d) →
      r.readFrom ⟨frames, .numeral negative (.whole [c])⟩ (digits ++ rest) =
        r.readFrom ⟨frames, .numeral negative (.whole (c :: digits).reverse)⟩ rest := by
    intro c digits hdigits
    rw [readFrom_digits attentive quiet extended?_whole hdigits, List.reverse_cons]
  cases hsign with
  | none =>
    cases hwhole with
    | zero =>
      refine ⟨.zero, .zero, ?_⟩
      exact readFrom_of_quiet_step attentive (quiet _) rfl trivial (quiet _)
    | @digits c digits _ notZero first digit =>
      refine ⟨.whole (c :: digits).reverse, by simpa using AtWhole.digits (c :: digits).reverse, ?_⟩
      rw [readFrom_of_quiet_step attentive (quiet _) (step_digit notZero first) trivial (quiet _),
        hdigits digit]
  | minus =>
    have hminus : step false ⟨frames, .value⟩ '-' = .ok ⟨frames, .numeral true .sign⟩ := rfl
    rw [readFrom_of_quiet_step attentive (quiet _) hminus trivial (quiet _)]
    cases hwhole with
    | zero => exact ⟨.zero, .zero, readFrom_extended attentive quiet rfl⟩
    | @digits c digits _ notZero first digit =>
      refine ⟨.whole (c :: digits).reverse, by simpa using AtWhole.digits (c :: digits).reverse, ?_⟩
      have hfirst : extended? .sign c = some (.whole [c]) := by
        rw [extended?, if_neg notZero, if_pos first]
      rw [readFrom_extended attentive quiet hfirst, hdigits digit]

theorem readFrom_fractionPart (hplace : AtWhole place whole) (h : Fraction fraction t rest) :
    ∃ next, AtFraction next whole fraction ∧
      r.readFrom ⟨frames, .numeral negative place⟩ t =
        r.readFrom ⟨frames, .numeral negative next⟩ rest := by
  cases h with
  | none => exact ⟨place, .whole hplace, rfl⟩
  | @digits digits _ h =>
    have hpoint : extended? place '.' = some (.point whole.reverse) := by
      cases hplace with
      | zero => rfl
      | digits digits => rw [List.reverse_reverse]; rfl
    have hmore : ∀ read d, isDigit d → extended? (.fraction whole.reverse read) d =
        some (.fraction whole.reverse (d :: read)) := fun read d hd => if_pos hd
    cases digits with
    | nil => exact absurd rfl h.nonempty
    | cons d digits =>
      have hdigits := h.digit
      rw [List.forall_mem_cons] at hdigits
      have hfirst : extended? (.point whole.reverse) d = some (.fraction whole.reverse [d]) :=
        if_pos hdigits.1
      refine ⟨.fraction whole.reverse (d :: digits).reverse, ?_, ?_⟩
      · simpa using AtFraction.fraction whole.reverse (d :: digits).reverse
      · rw [readFrom_extended attentive quiet hpoint, List.cons_append,
          readFrom_extended attentive quiet hfirst, readFrom_digits attentive quiet hmore hdigits.2,
          List.reverse_cons]

theorem readFrom_exponentSign {whole : List Char} {fraction : Option (List Char)} {minus : Bool}
    {d : Char} (sign : ExponentSign minus t (d :: rest)) (hd : isDigit d) :
    r.readFrom ⟨frames, .numeral negative (.exponentMark whole fraction)⟩ t =
      r.readFrom ⟨frames, .numeral negative (.exponent whole fraction minus [d])⟩ rest := by
  have hfirst : ∀ minus, extended? (.exponentSign whole fraction minus) d =
      some (.exponent whole fraction minus [d]) := fun minus => if_pos hd
  cases sign with
  | none =>
    have hunsigned : extended? (.exponentMark whole fraction) d =
        some (.exponent whole fraction false [d]) := by
      rw [extended?, if_neg (ne_of_isDigit hd rfl), if_neg (ne_of_isDigit hd rfl), if_pos hd]
    exact readFrom_extended attentive quiet hunsigned
  | plus =>
    have hplus : extended? (.exponentMark whole fraction) '+' =
        some (.exponentSign whole fraction false) := rfl
    rw [readFrom_extended attentive quiet hplus, readFrom_extended attentive quiet (hfirst _)]
  | minus =>
    have hminus : extended? (.exponentMark whole fraction) '-' =
        some (.exponentSign whole fraction true) := rfl
    rw [readFrom_extended attentive quiet hminus, readFrom_extended attentive quiet (hfirst _)]

theorem readFrom_exponentPart (hplace : AtFraction place whole fraction)
    (h : Exponent exponent t rest) :
    ∃ last, ended? negative last = some ⟨negative, whole, fraction, exponent⟩ ∧
      r.readFrom ⟨frames, .numeral negative place⟩ t =
        r.readFrom ⟨frames, .numeral negative last⟩ rest := by
  cases h with
  | none => exact ⟨place, hplace.ended?, rfl⟩
  | @digits mark minus digits t _ isMark sign h =>
    have hmark : extended? place mark =
        some (.exponentMark whole.reverse (fraction.map List.reverse)) := by
      rcases isMark with rfl | rfl <;> rcases hplace with ⟨_ | digits⟩ | ⟨whole, digits⟩ <;>
        simp [extended?, isDigit]
    have hmore : ∀ read d, isDigit d →
        extended? (.exponent whole.reverse (fraction.map List.reverse) minus read) d =
          some (.exponent whole.reverse (fraction.map List.reverse) minus (d :: read)) :=
      fun read d hd => if_pos hd
    cases digits with
    | nil => exact absurd rfl h.nonempty
    | cons d digits =>
      have hdigits := h.digit
      rw [List.forall_mem_cons] at hdigits
      rw [List.cons_append] at sign
      refine ⟨.exponent whole.reverse (fraction.map List.reverse) minus (d :: digits).reverse, ?_, ?_⟩
      · rw [ended?_exponent]
        cases fraction with
        | none => simp
        | some digits => simp
      · rw [readFrom_extended attentive quiet hmark,
          readFrom_exponentSign attentive quiet sign hdigits.1,
          readFrom_digits attentive quiet hmore hdigits.2, List.reverse_cons]

/-- A numeral is read up to its end and delivered if it has a value. -/
theorem readFrom_numeral {n : JsonNumeral} (h : Numeral n t rest) (delimits : Delimits rest) :
    r.readFrom ⟨frames, .value⟩ t = onward n.value? fun v => r.readFrom (deliver v frames) rest := by
  cases h with
  | mk hsign hwhole hfraction hexponent =>
    obtain ⟨place₁, hplace₁, hread₁⟩ := readFrom_wholePart attentive quiet hsign hwhole
    obtain ⟨place₂, hplace₂, hread₂⟩ := readFrom_fractionPart attentive quiet hplace₁ hfraction
    obtain ⟨last, hended, hread₃⟩ := readFrom_exponentPart attentive quiet hplace₂ hexponent
    rw [hread₁, hread₂, hread₃, readFrom_ended attentive delimits hended]

end Numerals

section Strings
variable {role : StringRole} {read pending : List Char}

theorem utf8Size_of_hexValue? {c : Char} {n : Nat} (h : hexValue? c = some n) : c.utf8Size = 1 := by
  have hc : c ≤ 'f' := by
    rw [hexValue?] at h
    split at h
    · next hdigit => exact Char.le_trans hdigit.2 (by decide)
    split at h
    · next hsmall => exact hsmall.2
    split at h
    · next hcapital => exact Char.le_trans hcapital.2 (by decide)
    · cases h
  rw [Char.utf8Size_eq_one_iff]
  exact UInt32.le_trans hc (by decide)

/-- A code unit is written with four digits of one byte each. -/
theorem digits_of_unitValue? {digits : List Char} {n : Nat} (h : unitValue? digits = some n) :
    ∃ a b c d, digits = [a, b, c, d] ∧ a.utf8Size = 1 ∧ b.utf8Size = 1 ∧ c.utf8Size = 1 ∧
      d.utf8Size = 1 := by
  unfold unitValue? at h
  split at h
  · next a b c d =>
    simp only [Option.bind_eq_bind, Option.bind_eq_some_iff] at h
    obtain ⟨_, ha, _, hb, _, hc, _, hd, -⟩ := h
    exact ⟨a, b, c, d, rfl, utf8Size_of_hexValue? ha, utf8Size_of_hexValue? hb,
      utf8Size_of_hexValue? hc, utf8Size_of_hexValue? hd⟩
  · cases h

theorem ne_of_shortEscape? {letter c : Char} (h : shortEscape? letter = some c) : letter ≠ 'u' := by
  rintro rfl
  cases h

theorem afterUnit_none (n : Nat) :
    afterUnit false role none n read =
      if trailingSurrogate n then .error .malformed
      else if leadingSurrogate n then .ok (.string role (.partnerBackslash n) read)
      else .ok (.string role .plain (Char.ofNat n :: read)) := rfl

theorem afterUnit_some (leading n : Nat) :
    afterUnit false role (some leading) n read =
      if trailingSurrogate n then .ok (.string role .plain (paired leading n :: read))
      else .error .malformed := rfl

variable (attentive : Attentive r) (quiet : Quiet r frames)
include attentive quiet

/-- The digits of a code unit are read up to the last one, which decides what the unit is. -/
theorem readFrom_unitDigits {leading : Option Nat} {digits : List Char} {n : Nat}
    (value : unitValue? digits = some n) :
    r.readFrom ⟨frames, .string role (.unit leading []) read⟩ (digits ++ rest) =
      (lifted (afterUnit false role leading n read)).bind fun mode =>
        r.readFrom ⟨frames, mode⟩ rest := by
  obtain ⟨a, b, c, d, rfl, ha, hb, hc, hd⟩ := digits_of_unitValue? value
  have hlast : step false ⟨frames, .string role (.unit leading [a, b, c]) read⟩ d =
      (afterUnit false role leading n read).map (⟨frames, ·⟩) := by
    simp only [step, stepString, List.cons_append, List.nil_append, List.foldl_cons, List.foldl_nil,
      ha, hb, hc, hd, value]
    rfl
  rw [List.cons_append, List.cons_append, List.cons_append, List.cons_append, List.nil_append,
    readFrom_of_step attentive (quiet _) (step_unit (by simp [ha])) trivial trivial,
    readFrom_of_step attentive (quiet _) (step_unit (by simp [ha, hb])) trivial trivial,
    readFrom_of_step attentive (quiet _) (step_unit (by simp [ha, hb, hc])) trivial trivial]
  cases hafter : afterUnit false role leading n read with
  | error f =>
    rw [hafter] at hlast
    exact readFrom_of_fault attentive (quiet _) hlast trivial
  | ok mode =>
    rw [hafter] at hlast
    exact readFrom_of_quiet_step attentive (quiet _) hlast trivial (quiet _)

/-- A string is read up to its closing quote, and delivered if its pieces spell characters. -/
theorem readFrom_inside {target : List Char → State}
    (hend : ∀ read, deliverString role read frames = .ok (target read))
    (settled : ∀ read, Settled (target read)) {pieces : List Piece} (h : Inside pieces t rest) :
    (∀ read, r.readFrom ⟨frames, .string role .plain read⟩ t =
      onward (characters? none pieces) fun text => r.readFrom (target (text.reverse ++ read)) rest) ∧
    ∀ leading read, r.readFrom ⟨frames, .string role (.partnerBackslash leading) read⟩ t =
      onward (characters? (some leading) pieces) fun text =>
        r.readFrom (target (text.reverse ++ read)) rest := by
  induction h with
  | close =>
    constructor
    · intro read
      exact readFrom_of_step attentive (quiet _) (hend read) trivial (settled _)
    · intro leading read
      exact readFrom_of_fault attentive (quiet _) rfl trivial
  | @character c pieces t rest notQuote notBackslash notControl h ih =>
    constructor
    · intro read
      have hstep : step false ⟨frames, .string role .plain read⟩ c =
          .ok ⟨frames, .string role .plain (c :: read)⟩ := by
        simp only [step, stepString]
        rw [if_neg notQuote, if_neg notBackslash, if_neg (Nat.not_lt.mpr notControl)]
      rw [readFrom_of_step attentive (quiet _) hstep trivial trivial, ih.1, characters?, onward_map]
      simp
    · intro leading read
      have hstep : step false ⟨frames, .string role (.partnerBackslash leading) read⟩ c =
          .error .malformed := if_neg notBackslash
      rw [readFrom_of_fault attentive (quiet _) hstep trivial, characters?, onward_none]
  | @short letter c pieces t rest escape h ih =>
    constructor
    · intro read
      rw [readFrom_shortEscape attentive quiet (ne_of_shortEscape? escape) escape, ih.1,
        characters?, onward_map]
      simp
    · intro leading read
      have hbackslash : step false ⟨frames, .string role (.partnerBackslash leading) read⟩ '\\' =
          .ok ⟨frames, .string role (.partnerLetter leading) read⟩ := rfl
      have hletter : step false ⟨frames, .string role (.partnerLetter leading) read⟩ letter =
          .error .malformed := if_neg (ne_of_shortEscape? escape)
      rw [readFrom_of_step attentive (quiet _) hbackslash trivial trivial,
        readFrom_of_fault attentive (quiet _) hletter trivial, characters?, onward_none]
  | @unit digits n pieces t rest value h ih =>
    constructor
    · intro read
      have hbackslash : step false ⟨frames, .string role .plain read⟩ '\\' =
          .ok ⟨frames, .string role .escape read⟩ := rfl
      have hletter : step false ⟨frames, .string role .escape read⟩ 'u' =
          .ok ⟨frames, .string role (.unit none []) read⟩ := rfl
      rw [readFrom_of_step attentive (quiet _) hbackslash trivial trivial,
        readFrom_of_step attentive (quiet _) hletter trivial trivial,
        readFrom_unitDigits attentive quiet value, characters?, afterUnit_none]
      by_cases htrailing : trailingSurrogate n
      · rw [if_pos htrailing, if_pos htrailing]
        rfl
      rw [if_neg htrailing, if_neg htrailing]
      by_cases hleading : leadingSurrogate n
      · rw [if_pos hleading, if_pos hleading, lifted_ok, ok_bind, ih.2]
      · rw [if_neg hleading, if_neg hleading, lifted_ok, ok_bind, ih.1, onward_map]
        simp
    · intro leading read
      have hbackslash : step false ⟨frames, .string role (.partnerBackslash leading) read⟩ '\\' =
          .ok ⟨frames, .string role (.partnerLetter leading) read⟩ := rfl
      have hletter : step false ⟨frames, .string role (.partnerLetter leading) read⟩ 'u' =
          .ok ⟨frames, .string role (.unit (some leading) []) read⟩ := rfl
      rw [readFrom_of_step attentive (quiet _) hbackslash trivial trivial,
        readFrom_of_step attentive (quiet _) hletter trivial trivial,
        readFrom_unitDigits attentive quiet value, characters?, afterUnit_some]
      by_cases htrailing : trailingSurrogate n
      · rw [if_pos htrailing, if_pos htrailing, lifted_ok, ok_bind, ih.1, onward_map]
        simp
      · rw [if_neg htrailing, if_neg htrailing]
        rfl

end Strings

end HashedTree.TokenReading
