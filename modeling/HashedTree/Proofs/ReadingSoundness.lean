import HashedTree.Proofs.DocumentGrammar
import HashedTree.Proofs.ReadingMoves

/-!
# What is read is written as a document

What a state still needs of a text is said in terms of the grammar: the rest of what has been begun,
and then the rest of every open array and object. A move backwards puts one character in front of
this, so that a text that is read to its end is written as a document.
-/
namespace HashedTree.ReadingSoundness
open JsonReading ReadingSteps DocumentReading DocumentGrammar ReadingMoves
open AsciiCharacters

variable {ε : Type} {frames outer : List Frame} {mode : Mode} {t t₁ t₂ rest : List Char} {c : Char}

section Numerals

/-- Digits, which may be none. -/
def MoreDigits (t rest : List Char) : Prop :=
  ∃ digits, (∀ d ∈ digits, isDigit d) ∧ t = digits ++ rest

def SomeDigits (t rest : List Char) : Prop := ∃ digits, Digits digits ∧ t = digits ++ rest

def ExponentRest (t rest : List Char) : Prop := ∃ exponent, Exponent exponent t rest

def FractionRest (t rest : List Char) : Prop :=
  ∃ fraction t₁, Fraction fraction t t₁ ∧ ExponentRest t₁ rest

/-- What a numeral still needs. -/
def NumeralRest : NumeralPlace → List Char → List Char → Prop
  | .sign, t, rest => ∃ whole t₁, Whole whole t t₁ ∧ FractionRest t₁ rest
  | .zero, t, rest => FractionRest t rest
  | .whole _, t, rest => ∃ t₁, MoreDigits t t₁ ∧ FractionRest t₁ rest
  | .point _, t, rest => ∃ t₁, SomeDigits t t₁ ∧ ExponentRest t₁ rest
  | .fraction _ _, t, rest => ∃ t₁, MoreDigits t t₁ ∧ ExponentRest t₁ rest
  | .exponentMark _ _, t, rest => ∃ minus t₁, ExponentSign minus t t₁ ∧ SomeDigits t₁ rest
  | .exponentSign _ _ _, t, rest => SomeDigits t rest
  | .exponent _ _ _ _, t, rest => MoreDigits t rest

theorem MoreDigits.cons (hc : isDigit c) (h : MoreDigits t rest) : MoreDigits (c :: t) rest := by
  obtain ⟨digits, hdigits, rfl⟩ := h
  exact ⟨c :: digits, List.forall_mem_cons.mpr ⟨hc, hdigits⟩, rfl⟩

theorem MoreDigits.someDigits (hc : isDigit c) (h : MoreDigits t rest) : SomeDigits (c :: t) rest := by
  obtain ⟨digits, hdigits, rfl⟩ := h
  exact ⟨c :: digits, ⟨List.cons_ne_nil _ _, List.forall_mem_cons.mpr ⟨hc, hdigits⟩⟩, rfl⟩

theorem moreDigits_self : MoreDigits rest rest := ⟨[], nofun, rfl⟩

theorem fractionRest_of_exponentRest (h : ExponentRest t rest) : FractionRest t rest :=
  ⟨none, t, .none, h⟩

theorem SomeDigits.fractionRest (h : SomeDigits t t₁) (hexponent : ExponentRest t₁ rest) :
    FractionRest ('.' :: t) rest := by
  obtain ⟨digits, hdigits, rfl⟩ := h
  exact ⟨some digits, t₁, .digits hdigits, hexponent⟩

theorem SomeDigits.exponentRest {mark : Char} {minus : Bool} (isMark : mark = 'e' ∨ mark = 'E')
    (sign : ExponentSign minus t t₁) (h : SomeDigits t₁ rest) : ExponentRest (mark :: t) rest := by
  obtain ⟨digits, hdigits, rfl⟩ := h
  exact ⟨_, .digits isMark sign hdigits⟩

/-- A numeral that may end needs nothing. -/
theorem numeralRest_of_ended {place : NumeralPlace} {negative : Bool} {n : JsonNumeral}
    (h : ended? negative place = some n) : NumeralRest place rest rest := by
  have exponent : ExponentRest rest rest := ⟨none, .none⟩
  cases place with
  | zero => exact fractionRest_of_exponentRest exponent
  | whole digits => exact ⟨rest, moreDigits_self, fractionRest_of_exponentRest exponent⟩
  | fraction whole digits => exact ⟨rest, moreDigits_self, exponent⟩
  | exponent whole fraction minus digits => exact moreDigits_self
  | sign => cases h
  | point whole => cases h
  | exponentMark whole fraction => cases h
  | exponentSign whole fraction minus => cases h

theorem numeralRest_of_extended {place next : NumeralPlace} (h : extended? place c = some next)
    (hrest : NumeralRest next t rest) : NumeralRest place (c :: t) rest := by
  cases place with
  | sign =>
    simp only [extended?] at h
    split_ifs at h with hzero hdigit
    · cases h
      exact ⟨['0'], t, hzero ▸ .zero, hrest⟩
    · cases h
      obtain ⟨t₁, ⟨digits, hdigits, rfl⟩, hfraction⟩ := hrest
      exact ⟨_, t₁, .digits hzero hdigit hdigits, hfraction⟩
  | zero =>
    simp only [extended?] at h
    split_ifs at h with hpoint hmark
    · cases h
      obtain ⟨t₁, hdigits, hexponent⟩ := hrest
      exact hpoint ▸ hdigits.fractionRest hexponent
    · cases h
      obtain ⟨minus, t₁, hsign, hdigits⟩ := hrest
      exact fractionRest_of_exponentRest (hdigits.exponentRest hmark hsign)
  | whole digits =>
    simp only [extended?] at h
    split_ifs at h with hdigit hpoint hmark
    · cases h
      obtain ⟨t₁, hdigits, hfraction⟩ := hrest
      exact ⟨t₁, hdigits.cons hdigit, hfraction⟩
    · cases h
      obtain ⟨t₁, hdigits, hexponent⟩ := hrest
      exact ⟨_, moreDigits_self, hpoint ▸ hdigits.fractionRest hexponent⟩
    · cases h
      obtain ⟨minus, t₁, hsign, hdigits⟩ := hrest
      exact ⟨_, moreDigits_self,
        fractionRest_of_exponentRest (hdigits.exponentRest hmark hsign)⟩
  | point whole =>
    simp only [extended?] at h
    split_ifs at h with hdigit
    cases h
    obtain ⟨t₁, hdigits, hexponent⟩ := hrest
    exact ⟨t₁, hdigits.someDigits hdigit, hexponent⟩
  | fraction whole digits =>
    simp only [extended?] at h
    split_ifs at h with hdigit hmark
    · cases h
      obtain ⟨t₁, hdigits, hexponent⟩ := hrest
      exact ⟨t₁, hdigits.cons hdigit, hexponent⟩
    · cases h
      obtain ⟨minus, t₁, hsign, hdigits⟩ := hrest
      exact ⟨_, moreDigits_self, hdigits.exponentRest hmark hsign⟩
  | exponentMark whole fraction =>
    simp only [extended?] at h
    split_ifs at h with hplus hminus hdigit
    · cases h
      exact ⟨false, t, hplus ▸ .plus, hrest⟩
    · cases h
      exact ⟨true, t, hminus ▸ .minus, hrest⟩
    · cases h
      exact ⟨false, c :: t, .none, MoreDigits.someDigits hdigit hrest⟩
  | exponentSign whole fraction minus =>
    simp only [extended?] at h
    split_ifs at h with hdigit
    cases h
    exact MoreDigits.someDigits hdigit hrest
  | exponent whole fraction minus digits =>
    simp only [extended?] at h
    split_ifs at h with hdigit
    cases h
    exact MoreDigits.cons hdigit hrest

theorem numeral_of_starts {negative : Bool} {place : NumeralPlace}
    (starts : NumeralStarts c negative place) (h : NumeralRest place t rest) :
    ∃ n, Numeral n (c :: t) rest := by
  cases starts with
  | minus =>
    obtain ⟨whole, t₁, hwhole, fraction, t₂, hfraction, exponent, hexponent⟩ := h
    exact ⟨_, .mk .minus hwhole hfraction hexponent⟩
  | zero =>
    obtain ⟨fraction, t₁, hfraction, exponent, hexponent⟩ := h
    exact ⟨_, .mk .none .zero hfraction hexponent⟩
  | digit notZero digit =>
    obtain ⟨t₁, ⟨digits, hdigits, rfl⟩, fraction, t₂, hfraction, exponent, hexponent⟩ := h
    exact ⟨_, .mk .none (.digits notZero digit hdigits) hfraction hexponent⟩

end Numerals

section Strings

/-- What has been read of an escape that is not complete. -/
def escapeText : StringPlace → List Char
  | .plain | .partnerBackslash _ => []
  | .escape | .partnerLetter _ => ['\\']
  | .unit _ pending => '\\' :: 'u' :: pending

/-- What a string still needs. -/
def StringRest (place : StringPlace) (t rest : List Char) : Prop :=
  ∃ pieces, Inside pieces (escapeText place ++ t) rest

theorem stringRest_of_moves {place next : StringPlace} (h : StringMoves place c next)
    (hrest : StringRest next t rest) : StringRest place (c :: t) rest := by
  obtain ⟨pieces, hpieces⟩ := hrest
  cases h with
  | plain notQuote notBackslash notControl =>
    exact ⟨_, .character notQuote notBackslash notControl hpieces⟩
  | short escape => exact ⟨_, .short escape hpieces⟩
  | unit value =>
    have h := Inside.unit value hpieces
    rw [List.append_assoc, List.singleton_append] at h
    exact ⟨_, h⟩
  | leadingUnit value =>
    have h := Inside.unit value hpieces
    rw [List.append_assoc, List.singleton_append] at h
    exact ⟨_, h⟩
  | digit =>
    rw [escapeText, List.cons_append, List.cons_append, List.append_assoc,
      List.singleton_append] at hpieces
    exact ⟨pieces, hpieces⟩
  | backslash => exact ⟨pieces, hpieces⟩
  | mark => exact ⟨pieces, hpieces⟩
  | partnerBackslash => exact ⟨pieces, hpieces⟩
  | partnerLetter => exact ⟨pieces, hpieces⟩

end Strings

section States

/-- The rest of an array behind one of its elements. -/
inductive ArrayRest : List Char → List Char → Prop where
  | close {t rest : List Char} (blanks : Blanks t (']' :: rest)) : ArrayRest t rest
  | more {ws : List Written} {t t₁ rest : List Char} (blanks : Blanks t (',' :: t₁))
      (h : Spells (.elements ws) t₁ (']' :: rest)) : ArrayRest t rest

/-- The rest of an object behind one of its members. -/
inductive ObjectRest : List Char → List Char → Prop where
  | close {t rest : List Char} (blanks : Blanks t ('\x7d' :: rest)) : ObjectRest t rest
  | more {ms : List WrittenMember} {t t₁ rest : List Char} (blanks : Blanks t (',' :: t₁))
      (h : Spells (.members ms) t₁ ('\x7d' :: rest)) : ObjectRest t rest

/-- What follows a value inside open arrays and objects. -/
def Follows : List Frame → List Char → Prop
  | [], t => Blanks t []
  | .array _ :: outer, t => ∃ rest, ArrayRest t rest ∧ Follows outer rest
  | .object _ _ :: outer, t => ∃ rest, ObjectRest t rest ∧ Follows outer rest

def ValueRest (frames : List Frame) (t : List Char) : Prop :=
  ∃ w t₁ t₂, Blanks t t₁ ∧ Spells (.value w) t₁ t₂ ∧ Follows frames t₂

def ColonRest (frames : List Frame) (t : List Char) : Prop :=
  ∃ t₁, Blanks t (':' :: t₁) ∧ ValueRest frames t₁

def NameRest (frames : List Frame) (t : List Char) : Prop :=
  ∃ t₁ pieces t₂, Blanks t ('"' :: t₁) ∧ Inside pieces t₁ t₂ ∧ ColonRest frames t₂

/-- An array or object that ends before anything has been read of it. -/
def EmptyRest (closing : Char) (frames : List Frame) (t : List Char) : Prop :=
  ∃ rest, Blanks t (closing :: rest) ∧ Follows frames.tail rest

/-- What a state still needs. -/
def Remains (frames : List Frame) : Mode → List Char → Prop
  | .value, t => ValueRest frames t
  | .firstElement, t => EmptyRest ']' frames t ∨ ValueRest frames t
  | .firstName, t => EmptyRest '\x7d' frames t ∨ NameRest frames t
  | .name, t => NameRest frames t
  | .colon, t => ColonRest frames t
  | .next, t | .done _, t => Follows frames t
  | .word word _, t => ∃ rest, t = word ++ rest ∧ Follows frames rest
  | .string .value place _, t => ∃ rest, StringRest place t rest ∧ Follows frames rest
  | .string .name place _, t => ∃ rest, StringRest place t rest ∧ ColonRest frames rest
  | .numeral _ place, t => ∃ rest, NumeralRest place t rest ∧ Follows frames rest

theorem follows_of_deliver {v : Json} (h : Remains (deliver v frames).frames (deliver v frames).mode t) :
    Follows frames t := by
  rcases frames with _ | ⟨_ | _, outer⟩ <;> exact h

theorem Follows.cons (blank : isBlank c) (h : Follows frames t) : Follows frames (c :: t) := by
  rcases frames with _ | ⟨_ | _, outer⟩
  · exact .cons blank h
  · obtain ⟨rest, hrest, houter⟩ := h
    refine ⟨rest, ?_, houter⟩
    cases hrest with
    | close blanks => exact .close (.cons blank blanks)
    | more blanks h => exact .more (.cons blank blanks) h
  · obtain ⟨rest, hrest, houter⟩ := h
    refine ⟨rest, ?_, houter⟩
    cases hrest with
    | close blanks => exact .close (.cons blank blanks)
    | more blanks h => exact .more (.cons blank blanks) h

theorem EmptyRest.cons {closing : Char} (blank : isBlank c) (h : EmptyRest closing frames t) :
    EmptyRest closing frames (c :: t) := by
  obtain ⟨rest, hblanks, hrest⟩ := h
  exact ⟨rest, .cons blank hblanks, hrest⟩

theorem ValueRest.cons (blank : isBlank c) (h : ValueRest frames t) : ValueRest frames (c :: t) := by
  obtain ⟨w, t₁, t₂, hblanks, hrest⟩ := h
  exact ⟨w, t₁, t₂, .cons blank hblanks, hrest⟩

theorem ColonRest.cons (blank : isBlank c) (h : ColonRest frames t) : ColonRest frames (c :: t) := by
  obtain ⟨t₁, hblanks, hrest⟩ := h
  exact ⟨t₁, .cons blank hblanks, hrest⟩

theorem NameRest.cons (blank : isBlank c) (h : NameRest frames t) : NameRest frames (c :: t) := by
  obtain ⟨t₁, pieces, t₂, hblanks, hrest⟩ := h
  exact ⟨t₁, pieces, t₂, .cons blank hblanks, hrest⟩

/-- Blanks may be put in front of whatever may start with them. -/
theorem remains_of_blank (patient : Patient mode) (blank : isBlank c) (h : Remains frames mode t) :
    Remains frames mode (c :: t) := by
  cases mode with
  | value => exact ValueRest.cons blank h
  | firstElement => exact h.imp (EmptyRest.cons blank) (ValueRest.cons blank)
  | firstName => exact h.imp (EmptyRest.cons blank) (NameRest.cons blank)
  | name => exact NameRest.cons blank h
  | colon => exact ColonRest.cons blank h
  | next => exact Follows.cons blank h
  | done document => exact Follows.cons blank h
  | word word document => cases patient
  | string role place read => cases patient
  | numeral negative place => cases patient

theorem remains_of_spells_value {w : Written} (hmode : ValueMode mode)
    (h : Spells (.value w) t rest) (follows : Follows frames rest) : Remains frames mode t := by
  have hrest : ValueRest frames t := ⟨w, t, rest, .nil, h, follows⟩
  rcases hmode with rfl | rfl
  · exact hrest
  · exact .inr hrest

/-- A value and what follows it in an array are the last elements of the array. -/
theorem elements_of_valueRest {done : List Json} (h : ValueRest (.array done :: outer) t) :
    ∃ ws rest, Spells (.elements ws) t (']' :: rest) ∧ Follows outer rest := by
  obtain ⟨w, t₁, t₂, hblanks, hvalue, rest, hrest, houter⟩ := h
  cases hrest with
  | close blanks => exact ⟨_, rest, .lastElement (.element hblanks hvalue blanks), houter⟩
  | more blanks h => exact ⟨_, rest, .moreElements (.element hblanks hvalue blanks) h, houter⟩

/-- A member and what follows it in an object are the last members of the object. -/
theorem members_of_nameRest {done : List (String × Json)} {name : String}
    (h : NameRest (.object done name :: outer) t) :
    ∃ ms rest, Spells (.members ms) t ('\x7d' :: rest) ∧ Follows outer rest := by
  obtain ⟨t₁, pieces, t₂, hbefore, hname, t₃, hbetween, w, t₄, t₅, hblanks, hvalue, rest, hrest,
    houter⟩ := h
  cases hrest with
  | close blanks =>
    exact ⟨_, rest, .lastMember (.member hbefore hname hbetween (.element hblanks hvalue blanks)),
      houter⟩
  | more blanks h =>
    exact ⟨_, rest,
      .moreMembers (.member hbefore hname hbetween (.element hblanks hvalue blanks)) h, houter⟩

theorem spells_of_wordStarts {word : List Char} {v : Json} (starts : WordStarts c word v) :
    ∃ w, ∀ rest, Spells (.value w) (c :: (word ++ rest)) rest := by
  cases starts with
  | null => exact ⟨_, fun _ => .null⟩
  | true => exact ⟨_, fun _ => .true⟩
  | false => exact ⟨_, fun _ => .false⟩

/-- What the state after a move needs, with the character in front, is what the state before it
needs. -/
theorem remains_of_moves {s next : State} (h : Moves s c next)
    (hrest : Remains next.frames next.mode t) : Remains s.frames s.mode (c :: t) := by
  cases h with
  | blank patient blank => exact remains_of_blank patient blank hrest
  | openString hmode =>
    obtain ⟨rest, ⟨pieces, hpieces⟩, follows⟩ := hrest
    exact remains_of_spells_value hmode (.string hpieces) follows
  | openArray hmode =>
    rcases hrest with ⟨rest, hblanks, follows⟩ | hvalue
    · exact remains_of_spells_value hmode (.emptyArray hblanks) follows
    · obtain ⟨ws, rest, hws, follows⟩ := elements_of_valueRest hvalue
      exact remains_of_spells_value hmode (.array hws) follows
  | openObject hmode =>
    rcases hrest with ⟨rest, hblanks, follows⟩ | hname
    · exact remains_of_spells_value hmode (.emptyObject hblanks) follows
    · obtain ⟨ms, rest, hms, follows⟩ := members_of_nameRest hname
      exact remains_of_spells_value hmode (.object hms) follows
  | openWord hmode starts =>
    obtain ⟨rest, rfl, follows⟩ := hrest
    obtain ⟨w, hw⟩ := spells_of_wordStarts starts
    exact remains_of_spells_value hmode (hw rest) follows
  | openNumeral hmode starts =>
    obtain ⟨rest, hnumeral, follows⟩ := hrest
    obtain ⟨n, hn⟩ := numeral_of_starts starts hnumeral
    exact remains_of_spells_value hmode (.numeral hn) follows
  | openName hmode =>
    obtain ⟨rest, ⟨pieces, hpieces⟩, hcolon⟩ := hrest
    have hname : NameRest _ ('"' :: t) := ⟨t, pieces, rest, .nil, hpieces, hcolon⟩
    rcases hmode with rfl | rfl
    · exact .inr hname
    · exact hname
  | closeArray hmode =>
    have follows := follows_of_deliver hrest
    rcases hmode with rfl | rfl
    · exact .inl ⟨t, .nil, follows⟩
    · exact ⟨t, .close .nil, follows⟩
  | closeObject hmode =>
    have follows := follows_of_deliver hrest
    rcases hmode with rfl | rfl
    · exact .inl ⟨t, .nil, follows⟩
    · exact ⟨t, .close .nil, follows⟩
  | nextElement =>
    obtain ⟨ws, rest, hws, follows⟩ := elements_of_valueRest hrest
    exact ⟨rest, .more .nil hws, follows⟩
  | nextMember =>
    obtain ⟨ms, rest, hms, follows⟩ := members_of_nameRest hrest
    exact ⟨rest, .more .nil hms, follows⟩
  | colon => exact ⟨t, .nil, hrest⟩
  | inWord =>
    obtain ⟨rest, rfl, follows⟩ := hrest
    exact ⟨rest, rfl, follows⟩
  | endWord => exact ⟨t, rfl, follows_of_deliver hrest⟩
  | inNumeral extended =>
    obtain ⟨rest, hnumeral, follows⟩ := hrest
    exact ⟨rest, numeralRest_of_extended extended hnumeral, follows⟩
  | @inString frames role place next read reading c h =>
    cases role with
    | value =>
      obtain ⟨rest, hstring, follows⟩ := hrest
      exact ⟨rest, stringRest_of_moves h hstring, follows⟩
    | name =>
      obtain ⟨rest, hstring, hcolon⟩ := hrest
      exact ⟨rest, stringRest_of_moves h hstring, hcolon⟩
  | endText => exact ⟨t, ⟨[], .close⟩, follows_of_deliver hrest⟩
  | endName => exact ⟨t, ⟨[], .close⟩, hrest⟩

theorem remains_of_settles {s settled : State} (h : Settles s settled)
    (hrest : Remains settled.frames settled.mode t) : Remains s.frames s.mode t := by
  cases h with
  | same => exact hrest
  | ended hended => exact ⟨t, numeralRest_of_ended hended, follows_of_deliver hrest⟩

theorem remains_of_accepts {s : State} {v : Json} (h : Accepts s t v) :
    Remains s.frames s.mode t := by
  induction h with
  | finish settles => exact remains_of_settles settles (.nil : Blanks [] [])
  | step settles moves accepts ih => exact remains_of_settles settles (remains_of_moves moves ih)

end States

/-- What is read is written as a document. -/
theorem writes_of_read {r : Reader ε} (attentive : Attentive r) {text : List Char} {v : Json}
    (h : r.read text = .ok v) : ∃ w, Writes w text := by
  have coherent : Coherent start := trivial
  have accepts : Accepts start text v := accepts_of_readFrom attentive coherent h
  obtain ⟨w, t₁, t₂, before, hvalue, after⟩ := remains_of_accepts accepts
  exact ⟨w, .element before hvalue after⟩

end HashedTree.ReadingSoundness
