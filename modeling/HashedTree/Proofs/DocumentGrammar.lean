import HashedTree.JsonReading

/-!
# What is a document, and what it says

The grammar of documents relates a part of a document, a text, and what the part leaves of the text.
It says nothing about how a text is read. What is written need not have a value: a number may be
beyond the doubles, and an escape may be half of a character.
-/
namespace HashedTree.DocumentGrammar
open JsonReading AsciiCharacters

/-- A part of a string: a character, or a code unit of UTF-16. -/
inductive Piece where
  | character (c : Char)
  | unit (n : Nat)

/-- A document as it is written. -/
inductive Written where
  | null
  | boolean (value : Bool)
  | numeral (n : JsonNumeral)
  | string (pieces : List Piece)
  | array (elements : List Written)
  | object (members : List (List Piece × Written))

abbrev WrittenMember := List Piece × Written

section Values

def leadingSurrogate (n : Nat) : Prop := 0xD800 ≤ n ∧ n ≤ 0xDBFF

def trailingSurrogate (n : Nat) : Prop := 0xDC00 ≤ n ∧ n ≤ 0xDFFF

instance (n : Nat) : Decidable (leadingSurrogate n) := inferInstanceAs (Decidable (_ ∧ _))

instance (n : Nat) : Decidable (trailingSurrogate n) := inferInstanceAs (Decidable (_ ∧ _))

def paired (leading trailing : Nat) : Char :=
  Char.ofNat ((leading - 0xD800) * 1024 + (trailing - 0xDC00) + 0x10000)

/-- The characters that pieces spell, behind a leading surrogate if one is still without its
partner. -/
def characters? : Option Nat → List Piece → Option (List Char)
  | none, [] => some []
  | none, .character c :: rest => (characters? none rest).map (c :: ·)
  | none, .unit n :: rest =>
    if trailingSurrogate n then none
    else if leadingSurrogate n then characters? (some n) rest
    else (characters? none rest).map (Char.ofNat n :: ·)
  | some leading, .unit n :: rest =>
    if trailingSurrogate n then (characters? none rest).map (paired leading n :: ·) else none
  | some _, [] | some _, .character _ :: _ => none

def text? (pieces : List Piece) : Option String := (characters? none pieces).map String.ofList

mutual
/-- What is written, as a document. -/
def Written.value? : Written → Option Json
  | .null => some .null
  | .boolean value => some (.boolean value)
  | .numeral n => n.value?
  | .string pieces => (text? pieces).map .string
  | .array elements => (values? elements).map .array
  | .object members => (memberValues? members).map .object

def values? : List Written → Option (List Json)
  | [] => some []
  | w :: ws => w.value?.bind fun v => (values? ws).map (v :: ·)

def memberValues? : List WrittenMember → Option (List (String × Json))
  | [] => some []
  | (pieces, w) :: ms =>
    (text? pieces).bind fun name => w.value?.bind fun v => (memberValues? ms).map ((name, v) :: ·)
end

mutual
/-- How many arrays and objects are open at once. -/
def Written.depth : Written → Nat
  | .array elements => depthOfElements elements + 1
  | .object members => depthOfMembers members + 1
  | .null | .boolean _ | .numeral _ | .string _ => 0

def depthOfElements : List Written → Nat
  | [] => 0
  | w :: ws => max w.depth (depthOfElements ws)

def depthOfMembers : List WrittenMember → Nat
  | [] => 0
  | (_, w) :: ms => max w.depth (depthOfMembers ms)
end

end Values

/-- Blanks, and what they leave. -/
inductive Blanks : List Char → List Char → Prop where
  | nil {r : List Char} : Blanks r r
  | cons {c : Char} {t r : List Char} (blank : isBlank c) (h : Blanks t r) : Blanks (c :: t) r

section Strings

/-- What stands behind the opening quote of a string, and what the closing one leaves. -/
inductive Inside : List Piece → List Char → List Char → Prop where
  | close {r : List Char} : Inside [] ('"' :: r) r
  | character {c : Char} {pieces : List Piece} {t r : List Char} (notQuote : c ≠ '"')
      (notBackslash : c ≠ '\\') (notControl : 0x20 ≤ c.toNat) (h : Inside pieces t r) :
      Inside (.character c :: pieces) (c :: t) r
  | short {letter c : Char} {pieces : List Piece} {t r : List Char}
      (escape : shortEscape? letter = some c) (h : Inside pieces t r) :
      Inside (.character c :: pieces) ('\\' :: letter :: t) r
  | unit {digits : List Char} {n : Nat} {pieces : List Piece} {t r : List Char}
      (value : unitValue? digits = some n) (h : Inside pieces t r) :
      Inside (.unit n :: pieces) ('\\' :: 'u' :: (digits ++ t)) r

end Strings

section Numerals

/-- One digit or more. -/
structure Digits (digits : List Char) : Prop where
  nonempty : digits ≠ []
  digit : ∀ d ∈ digits, isDigit d

def natural (digits : List Char) : Nat := Nat.ofDigitChars 10 digits 0

inductive Sign : Bool → List Char → List Char → Prop where
  | none {r : List Char} : Sign false r r
  | minus {r : List Char} : Sign true ('-' :: r) r

/-- A zero alone, or digits that do not start with one. -/
inductive Whole : List Char → List Char → List Char → Prop where
  | zero {r : List Char} : Whole ['0'] ('0' :: r) r
  | digits {c : Char} {digits r : List Char} (notZero : c ≠ '0') (first : isDigit c)
      (digit : ∀ d ∈ digits, isDigit d) : Whole (c :: digits) (c :: (digits ++ r)) r

inductive Fraction : Option (List Char) → List Char → List Char → Prop where
  | none {r : List Char} : Fraction none r r
  | digits {digits r : List Char} (h : Digits digits) : Fraction (some digits) ('.' :: (digits ++ r)) r

inductive ExponentSign : Bool → List Char → List Char → Prop where
  | none {r : List Char} : ExponentSign false r r
  | plus {r : List Char} : ExponentSign false ('+' :: r) r
  | minus {r : List Char} : ExponentSign true ('-' :: r) r

def signed (negative : Bool) (n : Nat) : Int := if negative then -n else n

inductive Exponent : Option Int → List Char → List Char → Prop where
  | none {r : List Char} : Exponent none r r
  | digits {mark : Char} {negative : Bool} {digits t r : List Char} (isMark : mark = 'e' ∨ mark = 'E')
      (sign : ExponentSign negative t (digits ++ r)) (h : Digits digits) :
      Exponent (some (signed negative (natural digits))) (mark :: t) r

inductive Numeral : JsonNumeral → List Char → List Char → Prop where
  | mk {negative : Bool} {whole : List Char} {fraction : Option (List Char)} {exponent : Option Int}
      {t t₁ t₂ t₃ r : List Char} (hsign : Sign negative t t₁) (hwhole : Whole whole t₁ t₂)
      (hfraction : Fraction fraction t₂ t₃) (hexponent : Exponent exponent t₃ r) :
      Numeral ⟨negative, whole, fraction, exponent⟩ t r

end Numerals

/-- The parts of a document. Blanks belong to elements and members, not to values. -/
inductive Part where
  | value (w : Written)
  | element (w : Written)
  | elements (ws : List Written)
  | member (m : WrittenMember)
  | members (ms : List WrittenMember)

/-- A text starts with a part of a document, and the rest is left. -/
inductive Spells : Part → List Char → List Char → Prop where
  | null {r : List Char} : Spells (.value .null) ('n' :: 'u' :: 'l' :: 'l' :: r) r
  | true {r : List Char} : Spells (.value (.boolean true)) ('t' :: 'r' :: 'u' :: 'e' :: r) r
  | false {r : List Char} :
      Spells (.value (.boolean false)) ('f' :: 'a' :: 'l' :: 's' :: 'e' :: r) r
  | numeral {n : JsonNumeral} {t r : List Char} (h : Numeral n t r) :
      Spells (.value (.numeral n)) t r
  | string {pieces : List Piece} {t r : List Char} (h : Inside pieces t r) :
      Spells (.value (.string pieces)) ('"' :: t) r
  | emptyArray {t r : List Char} (h : Blanks t (']' :: r)) :
      Spells (.value (.array [])) ('[' :: t) r
  | array {ws : List Written} {t r : List Char} (h : Spells (.elements ws) t (']' :: r)) :
      Spells (.value (.array ws)) ('[' :: t) r
  | emptyObject {t r : List Char} (h : Blanks t ('\x7d' :: r)) :
      Spells (.value (.object [])) ('\x7b' :: t) r
  | object {ms : List WrittenMember} {t r : List Char} (h : Spells (.members ms) t ('\x7d' :: r)) :
      Spells (.value (.object ms)) ('\x7b' :: t) r
  | element {w : Written} {t t₁ t₂ r : List Char} (before : Blanks t t₁)
      (h : Spells (.value w) t₁ t₂) (after : Blanks t₂ r) : Spells (.element w) t r
  | lastElement {w : Written} {t r : List Char} (h : Spells (.element w) t r) :
      Spells (.elements [w]) t r
  | moreElements {w : Written} {ws : List Written} {t t₁ r : List Char}
      (h : Spells (.element w) t (',' :: t₁)) (more : Spells (.elements ws) t₁ r) :
      Spells (.elements (w :: ws)) t r
  | member {pieces : List Piece} {w : Written} {t t₁ t₂ t₃ r : List Char}
      (before : Blanks t ('"' :: t₁)) (name : Inside pieces t₁ t₂) (between : Blanks t₂ (':' :: t₃))
      (h : Spells (.element w) t₃ r) : Spells (.member (pieces, w)) t r
  | lastMember {m : WrittenMember} {t r : List Char} (h : Spells (.member m) t r) :
      Spells (.members [m]) t r
  | moreMembers {m : WrittenMember} {ms : List WrittenMember} {t t₁ r : List Char}
      (h : Spells (.member m) t (',' :: t₁)) (more : Spells (.members ms) t₁ r) :
      Spells (.members (m :: ms)) t r

/-- A whole text is written as a document, with blanks around it. -/
def Writes (w : Written) (text : List Char) : Prop := Spells (.element w) text []

end HashedTree.DocumentGrammar
