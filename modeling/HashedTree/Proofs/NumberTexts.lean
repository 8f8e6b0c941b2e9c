import HashedTree.DecimalReading
import HashedTree.Proofs.NumeralReading

/-!
# Which texts read as numbers

An integer is written as digits behind an optional sign. A double has digits on at least one side
of an optional point, and perhaps a power of ten behind them; infinity and the lack of a number are
written as words, in small or capital letters.
-/
namespace HashedTree.NumberTexts
open DecimalReading AsciiCharacters NumeralReading

variable {text body digits rest : List Char} {negative : Bool} {n : Int} {x : Float}

/-- The text behind an optional sign, and whether the sign is a minus. -/
inductive Signed : List Char → Bool → List Char → Prop where
  | minus (body : List Char) : Signed ('-' :: body) true body
  | plus (body : List Char) : Signed ('+' :: body) false body
  | unsigned (body : List Char) : Signed body false body

def AllDigits (text : List Char) : Prop := ∀ c ∈ text, isDigit c

inductive IntegerText : List Char → Int → Prop where
  | signed {text digits : List Char} {negative : Bool} (sign : Signed text negative digits)
      (nonempty : digits ≠ []) (allDigits : AllDigits digits) :
      IntegerText text
        (if negative then -(Nat.ofDigitChars 10 digits 0 : Int) else Nat.ofDigitChars 10 digits 0)

/-- An optional point with the digits behind it. -/
inductive FractionText : List Char → List Char → Prop where
  | none : FractionText [] []
  | point {digits : List Char} (allDigits : AllDigits digits) : FractionText ('.' :: digits) digits

/-- An optional power of ten. -/
inductive PowerText : List Char → Int → Prop where
  | none : PowerText [] 0
  | power {mark : Char} {text : List Char} {n : Int} (hmark : mark = 'e' ∨ mark = 'E')
      (integer : IntegerText text n) : PowerText (mark :: text) n

inductive DecimalText : List Char → Float → Prop where
  | decimal {whole point fraction power : List Char} {exponent : Int} (allDigits : AllDigits whole)
      (hpoint : FractionText point fraction) (nonempty : whole ++ fraction ≠ [])
      (hpower : PowerText power exponent) :
      DecimalText (whole ++ (point ++ power))
        (nearest (whole ++ fraction) (exponent - fraction.length))

inductive UnsignedText : List Char → Float → Prop where
  | infinity {text : List Char}
      (word : text.map lower = "inf".toList ∨ text.map lower = "infinity".toList) :
      UnsignedText text (1.0 / 0.0)
  | notANumber {text : List Char} (word : text.map lower = "nan".toList) :
      UnsignedText text (0.0 / 0.0)
  | decimal {text : List Char} {x : Float} (decimal : DecimalText text x) : UnsignedText text x

inductive RealText : List Char → Float → Prop where
  | signed {text body : List Char} {negative : Bool} {x : Float}
      (sign : Signed text negative body) (unsigned : UnsignedText body x) :
      RealText text (if negative then -x else x)

/-! ### Signs -/

/-- No sign stands in front. -/
def Bare (text : List Char) : Prop := ∀ c ∈ text.head?, c ≠ '-' ∧ c ≠ '+'

def withoutSign (text : List Char) : Bool × List Char :=
  match text with
  | '-' :: body => (true, body)
  | '+' :: body => (false, body)
  | body => (false, body)

theorem signed_withoutSign (text : List Char) :
    Signed text (withoutSign text).1 (withoutSign text).2 := by
  unfold withoutSign
  split
  · exact .minus _
  · exact .plus _
  · exact .unsigned _

theorem withoutSign_of_signed (sign : Signed text negative body) (bare : Bare body) :
    withoutSign text = (negative, body) := by
  cases sign with
  | minus | plus => rfl
  | unsigned =>
    unfold withoutSign
    split
    · exact absurd rfl (bare '-' rfl).1
    · exact absurd rfl (bare '+' rfl).2
    · rfl

theorem bare_of_isDigit (h : ∀ c ∈ text.head?, isDigit c) : Bare text := fun c hc =>
  ⟨ne_of_isDigit (h c hc) rfl, ne_of_isDigit (h c hc) rfl⟩

/-! ### Integers -/

theorem natOf_eq (digits : List Char) : natOf digits = Nat.ofDigitChars 10 digits 0 := by
  simp only [natOf, Nat.ofDigitChars, Nat.mul_comm]
  rfl

theorem isEmpty_or_not_all_iff : ¬ (text.isEmpty ∨ !text.all isDigit) ↔ text ≠ [] ∧ AllDigits text := by
  simp only [List.isEmpty_iff, Bool.not_eq_true', not_or, Bool.not_eq_false, List.all_eq_true]
  rfl

theorem integer?_eq_some_iff : integer? text = some n ↔ IntegerText text n := by
  have hread : integer? text =
      if (withoutSign text).2.isEmpty ∨ !(withoutSign text).2.all isDigit then none
      else some (if (withoutSign text).1 then -(natOf (withoutSign text).2 : Int)
        else natOf (withoutSign text).2) := rfl
  rw [hread, natOf_eq]
  constructor
  · intro h
    split at h
    · cases h
    · next good =>
      cases h
      obtain ⟨nonempty, allDigits⟩ := isEmpty_or_not_all_iff.mp good
      exact .signed (signed_withoutSign text) nonempty allDigits
  · rintro ⟨sign, nonempty, allDigits⟩
    have bare := bare_of_isDigit fun c hc => allDigits c (List.mem_of_mem_head? hc)
    rw [withoutSign_of_signed sign bare, if_neg (isEmpty_or_not_all_iff.mpr ⟨nonempty, allDigits⟩)]

/-- A word of 64 bits can hold the integer. -/
def FitsWord (n : Int) : Prop := -2 ^ 63 ≤ n ∧ n < 2 ^ 63

theorem word?_eq_some_iff : word? text = some n ↔ IntegerText text n ∧ FitsWord n := by
  rw [word?, Option.filter_eq_some_iff, integer?_eq_some_iff, fitsWord, decide_eq_true_eq]
  rfl

theorem word?_eq_none_iff : word? text = none ↔ ∀ n, IntegerText text n → ¬ FitsWord n := by
  rw [Option.eq_none_iff_forall_ne_some]
  simp only [ne_eq, word?_eq_some_iff, not_and]

/-! ### Doubles -/

def Stops (text : List Char) : Prop := ∀ c ∈ text.head?, isDigit c = false

theorem takeWhile_of_stops (allDigits : AllDigits digits) (stops : Stops rest) :
    (digits ++ rest).takeWhile isDigit = digits := by
  have hrest : rest.takeWhile isDigit = [] := by
    cases rest with
    | nil => rfl
    | cons c rest => rw [List.takeWhile_cons, stops c rfl]; rfl
  rw [List.takeWhile_append_of_pos allDigits, hrest, List.append_nil]

theorem dropWhile_of_stops (allDigits : AllDigits digits) (stops : Stops rest) :
    (digits ++ rest).dropWhile isDigit = rest := by
  rw [List.dropWhile_append_of_pos allDigits]
  cases rest with
  | nil => rfl
  | cons c rest => rw [List.dropWhile_cons, stops c rfl]; rfl

theorem allDigits_takeWhile (text : List Char) : AllDigits (text.takeWhile isDigit) :=
  List.all_eq_true.mp List.all_takeWhile

/-- What stands behind the whole digits: the digits of a fraction, and the text behind them. -/
def splitFraction (text : List Char) : List Char × List Char :=
  match text with
  | '.' :: rest => (rest.takeWhile isDigit, rest.dropWhile isDigit)
  | rest => ([], rest)

def power? (text : List Char) : Option Int :=
  match text with
  | [] => some 0
  | 'e' :: rest | 'E' :: rest => integer? rest
  | _ => none

theorem unsigned?_eq (text : List Char) :
    unsigned? text =
      let whole := text.takeWhile isDigit
      let (fraction, rest) := splitFraction (text.dropWhile isDigit)
      if whole.isEmpty ∧ fraction.isEmpty then none
      else (power? rest).map fun e => nearest (whole ++ fraction) (e - fraction.length) := rfl

theorem power?_eq_some_iff : power? text = some n ↔ PowerText text n := by
  constructor
  · intro h
    unfold power? at h
    split at h
    · cases h
      exact .none
    · exact .power (.inl rfl) (integer?_eq_some_iff.mp h)
    · exact .power (.inr rfl) (integer?_eq_some_iff.mp h)
    · cases h
  · rintro (_ | ⟨rfl | rfl, integer⟩)
    · rfl
    · exact integer?_eq_some_iff.mpr integer
    · exact integer?_eq_some_iff.mpr integer

theorem PowerText.stops (h : PowerText text n) : Stops text := by
  cases h with
  | none => nofun
  | power hmark =>
    rintro c ⟨⟩
    obtain rfl | rfl := hmark <;> rfl

theorem Stops.behind {point fraction power : List Char} (hpoint : FractionText point fraction)
    (hpower : PowerText power n) : Stops (point ++ power) := by
  cases hpoint with
  | none => exact hpower.stops
  | point =>
    rintro c ⟨⟩
    rfl

theorem splitFraction_of_texts {point fraction power : List Char} {exponent : Int}
    (hpoint : FractionText point fraction) (hpower : PowerText power exponent) :
    splitFraction (point ++ power) = (fraction, power) := by
  cases hpoint with
  | none =>
    cases hpower with
    | none => rfl
    | power hmark => obtain rfl | rfl := hmark <;> rfl
  | point allDigits =>
    have stops := hpower.stops
    rw [List.cons_append, splitFraction, takeWhile_of_stops allDigits stops,
      dropWhile_of_stops allDigits stops]

theorem fractionText_of_split (text : List Char) :
    ∃ point, text = point ++ (splitFraction text).2 ∧ FractionText point (splitFraction text).1 := by
  unfold splitFraction
  split
  · next rest =>
    refine ⟨'.' :: rest.takeWhile isDigit, ?_, .point (allDigits_takeWhile rest)⟩
    rw [List.cons_append, List.takeWhile_append_dropWhile]
  · exact ⟨[], rfl, .none⟩

theorem unsigned?_eq_some_iff : unsigned? text = some x ↔ DecimalText text x := by
  rw [unsigned?_eq]
  constructor
  · intro h
    obtain ⟨point, behind, hpoint⟩ := fractionText_of_split (text.dropWhile isDigit)
    simp only [← List.append_eq_nil_iff, List.isEmpty_iff] at h
    split at h
    · cases h
    · next nonempty =>
      obtain ⟨exponent, hpower, rfl⟩ := Option.map_eq_some_iff.mp h
      have decimal := DecimalText.decimal (allDigits_takeWhile text) hpoint nonempty
        (power?_eq_some_iff.mp hpower)
      rwa [← behind, List.takeWhile_append_dropWhile] at decimal
  · rintro ⟨allDigits, hpoint, nonempty, hpower⟩
    have stops := Stops.behind hpoint hpower
    simp only [takeWhile_of_stops allDigits stops, dropWhile_of_stops allDigits stops,
      splitFraction_of_texts hpoint hpower, ← List.append_eq_nil_iff, List.isEmpty_iff,
      if_neg nonempty, power?_eq_some_iff.mpr hpower, Option.map_some]

/-- A decimal starts with a digit or a point, which stand before all letters. -/
theorem DecimalText.head (h : DecimalText text x) :
    ∃ c rest, text = c :: rest ∧ c ≤ '9' ∧ c ≠ '-' ∧ c ≠ '+' := by
  cases h with
  | @decimal whole point fraction power exponent allDigits hpoint nonempty hpower =>
    cases whole with
    | cons c whole =>
      have digit := allDigits c List.mem_cons_self
      have bounds : '0' ≤ c ∧ c ≤ '9' := by simpa [isDigit] using digit
      exact ⟨c, _, rfl, bounds.2, ne_of_isDigit digit rfl, ne_of_isDigit digit rfl⟩
    | nil =>
      cases hpoint with
      | none => exact absurd rfl nonempty
      | point => exact ⟨'.', _, rfl, by decide⟩

/-- No decimal is a word. -/
theorem DecimalText.lower_ne (h : DecimalText text x) {first : Char} (letter : 'a' ≤ first)
    (word : List Char) : text.map lower ≠ first :: word := by
  obtain ⟨c, rest, rfl, hc, -⟩ := h.head
  have same : lower c = c :=
    if_neg fun capital => absurd (Char.le_trans capital.1 hc) (by decide)
  rw [List.map_cons, same]
  rintro ⟨⟩
  exact absurd (Char.le_trans letter hc) (by decide)

/-- A word starts with no sign. -/
theorem bare_of_word {first : Char} {word : List Char} (h : text.map lower = first :: word)
    (letter : 'a' ≤ first) : Bare text := by
  cases text with
  | nil => cases h
  | cons c text =>
    rintro _ ⟨⟩
    constructor <;> rintro rfl <;> obtain ⟨rfl, -⟩ := List.cons.inj h <;>
      exact absurd letter (by decide)

theorem UnsignedText.bare (h : UnsignedText text x) : Bare text := by
  cases h with
  | infinity word => exact word.elim (bare_of_word · (by decide)) (bare_of_word · (by decide))
  | notANumber word => exact bare_of_word word (by decide)
  | decimal decimal =>
    obtain ⟨c, rest, rfl, -, noSign⟩ := decimal.head
    rintro _ ⟨⟩
    exact noSign

def unsignedValue? (body : List Char) : Option Float :=
  let word := String.ofList (body.map lower)
  if word = "inf" ∨ word = "infinity" then some (1.0 / 0.0)
  else if word = "nan" then some (0.0 / 0.0)
  else unsigned? body

theorem float?_eq (text : List Char) :
    float? text =
      (unsignedValue? (withoutSign text).2).map fun x => if (withoutSign text).1 then -x else x :=
  rfl

theorem ofList_eq_iff {letters : List Char} {word : String} :
    String.ofList letters = word ↔ letters = word.toList := by
  rw [← String.toList_inj, String.toList_ofList]

theorem unsignedValue?_eq_some_iff : unsignedValue? text = some x ↔ UnsignedText text x := by
  simp only [unsignedValue?, ofList_eq_iff]
  constructor
  · intro h
    split at h
    · next word =>
      cases h
      exact .infinity word
    split at h
    · next word =>
      cases h
      exact .notANumber word
    · exact .decimal (unsigned?_eq_some_iff.mp h)
  · intro h
    cases h with
    | infinity word => rw [if_pos word]
    | notANumber word =>
      have notInfinity : ¬ (text.map lower = "inf".toList ∨ text.map lower = "infinity".toList) := by
        rw [word]
        decide
      rw [if_neg notInfinity, if_pos word]
    | decimal decimal =>
      have notInfinity : ¬ (text.map lower = "inf".toList ∨ text.map lower = "infinity".toList) :=
        not_or.mpr ⟨decimal.lower_ne (by decide) _, decimal.lower_ne (by decide) _⟩
      have aNumber : text.map lower ≠ "nan".toList := decimal.lower_ne (by decide) _
      rw [if_neg notInfinity, if_neg aNumber, unsigned?_eq_some_iff.mpr decimal]

theorem float?_eq_some_iff : float? text = some x ↔ RealText text x := by
  rw [float?_eq, Option.map_eq_some_iff]
  constructor
  · rintro ⟨y, hy, rfl⟩
    exact .signed (signed_withoutSign text) (unsignedValue?_eq_some_iff.mp hy)
  · rintro ⟨sign, unsigned⟩
    rw [withoutSign_of_signed sign unsigned.bare]
    exact ⟨_, unsignedValue?_eq_some_iff.mpr unsigned, rfl⟩

theorem float?_eq_none_iff : float? text = none ↔ ∀ x, ¬ RealText text x := by
  rw [Option.eq_none_iff_forall_ne_some]
  simp only [ne_eq, float?_eq_some_iff]

end HashedTree.NumberTexts
