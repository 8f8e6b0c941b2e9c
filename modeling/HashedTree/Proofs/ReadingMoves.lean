import HashedTree.Proofs.DocumentReading

/-!
# What one character can do

Every step that succeeds is one of a few moves. From a state in which the mode and the innermost
frame fit together, they lead to such states only.
-/
namespace HashedTree.ReadingMoves
open JsonReading ReadingSteps StringReading DocumentReading AsciiCharacters Outcomes

/-- How a string goes on with a character that does not end it. -/
inductive StringMoves : StringPlace → Char → StringPlace → Prop where
  | plain {c : Char} (notQuote : c ≠ '"') (notBackslash : c ≠ '\\') (notControl : 0x20 ≤ c.toNat) :
      StringMoves .plain c .plain
  | backslash : StringMoves .plain '\\' .escape
  | short {letter c : Char} (escape : shortEscape? letter = some c) :
      StringMoves .escape letter .plain
  | mark : StringMoves .escape 'u' (.unit none [])
  | digit {leading : Option Nat} {pending : List Char} {c : Char} :
      StringMoves (.unit leading pending) c (.unit leading (pending ++ [c]))
  | unit {leading : Option Nat} {pending : List Char} {c : Char} {n : Nat}
      (value : unitValue? (pending ++ [c]) = some n) : StringMoves (.unit leading pending) c .plain
  | leadingUnit {leading : Option Nat} {pending : List Char} {c : Char} {n : Nat}
      (value : unitValue? (pending ++ [c]) = some n) :
      StringMoves (.unit leading pending) c (.partnerBackslash n)
  | partnerBackslash {leading : Nat} :
      StringMoves (.partnerBackslash leading) '\\' (.partnerLetter leading)
  | partnerLetter {leading : Nat} :
      StringMoves (.partnerLetter leading) 'u' (.unit (some leading) [])

/-- How the words for `null`, `true` and `false` begin. -/
inductive WordStarts : Char → List Char → Json → Prop where
  | null : WordStarts 'n' ['u', 'l', 'l'] .null
  | true : WordStarts 't' ['r', 'u', 'e'] (.boolean true)
  | false : WordStarts 'f' ['a', 'l', 's', 'e'] (.boolean false)

/-- How a numeral begins. -/
inductive NumeralStarts : Char → Bool → NumeralPlace → Prop where
  | minus : NumeralStarts '-' true .sign
  | zero : NumeralStarts '0' false .zero
  | digit {c : Char} (notZero : c ≠ '0') (digit : isDigit c) : NumeralStarts c false (.whole [c])

/-- What one character can do. -/
inductive Moves : State → Char → State → Prop where
  | blank {frames : List Frame} {mode : Mode} {c : Char} (patient : Patient mode)
      (blank : isBlank c) : Moves ⟨frames, mode⟩ c ⟨frames, mode⟩
  | openString {frames : List Frame} {mode : Mode} (hmode : ValueMode mode) :
      Moves ⟨frames, mode⟩ '"' ⟨frames, .string .value .plain []⟩
  | openArray {frames : List Frame} {mode : Mode} (hmode : ValueMode mode) :
      Moves ⟨frames, mode⟩ '[' ⟨.array [] :: frames, .firstElement⟩
  | openObject {frames : List Frame} {mode : Mode} (hmode : ValueMode mode) :
      Moves ⟨frames, mode⟩ '\x7b' ⟨.object [] "" :: frames, .firstName⟩
  | openWord {frames : List Frame} {mode : Mode} {c : Char} {word : List Char} {v : Json}
      (hmode : ValueMode mode) (starts : WordStarts c word v) :
      Moves ⟨frames, mode⟩ c ⟨frames, .word word v⟩
  | openNumeral {frames : List Frame} {mode : Mode} {c : Char} {negative : Bool}
      {place : NumeralPlace} (hmode : ValueMode mode) (starts : NumeralStarts c negative place) :
      Moves ⟨frames, mode⟩ c ⟨frames, .numeral negative place⟩
  | openName {frames : List Frame} {mode : Mode} (hmode : NameMode mode) :
      Moves ⟨frames, mode⟩ '"' ⟨frames, .string .name .plain []⟩
  | closeArray {done : List Json} {outer : List Frame} {mode : Mode}
      (hmode : mode = .firstElement ∨ mode = .next) :
      Moves ⟨.array done :: outer, mode⟩ ']' (deliver (.array done.reverse) outer)
  | closeObject {done : List (String × Json)} {name : String} {outer : List Frame} {mode : Mode}
      (hmode : mode = .firstName ∨ mode = .next) :
      Moves ⟨.object done name :: outer, mode⟩ '\x7d' (deliver (.object done.reverse) outer)
  | nextElement {done : List Json} {outer : List Frame} :
      Moves ⟨.array done :: outer, .next⟩ ',' ⟨.array done :: outer, .value⟩
  | nextMember {done : List (String × Json)} {name : String} {outer : List Frame} :
      Moves ⟨.object done name :: outer, .next⟩ ',' ⟨.object done name :: outer, .name⟩
  | colon {frames : List Frame} : Moves ⟨frames, .colon⟩ ':' ⟨frames, .value⟩
  | inWord {frames : List Frame} {first second : Char} {word : List Char} {v : Json} :
      Moves ⟨frames, .word (first :: second :: word) v⟩ first ⟨frames, .word (second :: word) v⟩
  | endWord {frames : List Frame} {last : Char} {v : Json} :
      Moves ⟨frames, .word [last] v⟩ last (deliver v frames)
  | inNumeral {frames : List Frame} {negative : Bool} {place next : NumeralPlace} {c : Char}
      (extended : extended? place c = some next) :
      Moves ⟨frames, .numeral negative place⟩ c ⟨frames, .numeral negative next⟩
  | inString {frames : List Frame} {role : StringRole} {place next : StringPlace}
      {read reading : List Char} {c : Char} (h : StringMoves place c next) :
      Moves ⟨frames, .string role place read⟩ c ⟨frames, .string role next reading⟩
  | endText {frames : List Frame} {read : List Char} :
      Moves ⟨frames, .string .value .plain read⟩ '"'
        (deliver (.string (String.ofList read.reverse)) frames)
  | endName {done : List (String × Json)} {name : String} {outer : List Frame} {read : List Char} :
      Moves ⟨.object done name :: outer, .string .name .plain read⟩ '"'
        ⟨.object done (String.ofList read.reverse) :: outer, .colon⟩

/-- The mode fits the innermost frame. -/
def Coherent : State → Prop
  | ⟨.array _ :: _, mode⟩ =>
    match mode with
    | .firstName | .name | .colon | .done _ | .string .name _ _ => False
    | .word word _ => word ≠ []
    | .value | .firstElement | .next | .string .value _ _ | .numeral _ _ => True
  | ⟨.object _ _ :: _, mode⟩ =>
    match mode with
    | .firstElement | .done _ => False
    | .word word _ => word ≠ []
    | .value | .firstName | .name | .colon | .next | .string _ _ _ | .numeral _ _ => True
  | ⟨[], mode⟩ =>
    match mode with
    | .firstElement | .firstName | .name | .colon | .next | .string .name _ _ => False
    | .word word _ => word ≠ []
    | .value | .done _ | .string .value _ _ | .numeral _ _ => True

theorem coherent_deliver (v : Json) (frames : List Frame) : Coherent (deliver v frames) := by
  rcases frames with _ | ⟨_ | _, outer⟩ <;> trivial

theorem Moves.coherent {s t : State} {c : Char} (h : Moves s c t) (coherent : Coherent s) :
    Coherent t := by
  cases h with
  | blank patient blank => exact coherent
  | closeArray hmode => exact coherent_deliver _ _
  | closeObject hmode => exact coherent_deliver _ _
  | endWord => exact coherent_deliver _ _
  | endText => exact coherent_deliver _ _
  | @openWord frames mode c word v hmode starts =>
    rcases frames with _ | ⟨_ | _, outer⟩ <;> cases starts <;> exact List.cons_ne_nil _ _
  | @inWord frames first second word v =>
    rcases frames with _ | ⟨_ | _, outer⟩ <;> exact List.cons_ne_nil _ _
  | @openName frames mode hmode =>
    rcases hmode with rfl | rfl <;> rcases frames with _ | ⟨_ | _, outer⟩ <;> trivial
  | @colon frames => rcases frames with _ | ⟨_ | _, outer⟩ <;> trivial
  | @openString frames mode hmode => rcases frames with _ | ⟨_ | _, outer⟩ <;> trivial
  | @openNumeral frames mode c negative place hmode starts =>
    rcases frames with _ | ⟨_ | _, outer⟩ <;> trivial
  | @inNumeral frames => rcases frames with _ | ⟨_ | _, outer⟩ <;> trivial
  | @inString frames role place next read reading c h =>
    rcases frames with _ | ⟨_ | _, outer⟩ <;> cases role <;> trivial
  | openArray hmode => trivial
  | openObject hmode => trivial
  | nextElement => trivial
  | nextMember => trivial
  | endName => trivial

variable {frames : List Frame} {c : Char} {t : State}

theorem moves_of_beginValue {mode : Mode} (hmode : ValueMode mode)
    (h : beginValue false frames c = .ok t) : Moves ⟨frames, mode⟩ c t := by
  simp only [beginValue, Bool.false_or, decide_eq_true_eq] at h
  split at h
  · next hc =>
    cases h
    exact hc ▸ .openString hmode
  split at h
  · next hc =>
    split at h
    · cases h
      exact hc ▸ .openArray hmode
    · cases h
  split at h
  · next hc =>
    split at h
    · cases h
      exact hc ▸ .openObject hmode
    · cases h
  split at h
  · next hc =>
    cases h
    exact .openWord hmode (hc ▸ .null)
  split at h
  · next hc =>
    cases h
    exact .openWord hmode (hc ▸ .true)
  split at h
  · next hc =>
    cases h
    exact .openWord hmode (hc ▸ .false)
  split at h
  · next hc =>
    cases h
    exact .openNumeral hmode (hc ▸ .minus)
  split at h
  · next hc =>
    cases h
    exact .openNumeral hmode (hc ▸ .zero)
  split at h
  · next notZero digit =>
    cases h
    exact .openNumeral hmode (.digit notZero digit)
  · cases h

/-- After a code unit, a string goes on, or the partner of the unit is awaited. -/
theorem mode_of_afterUnit {role : StringRole} {leading : Option Nat} {n : Nat} {read : List Char}
    {mode : Mode} (h : afterUnit false role leading n read = .ok mode) :
    ∃ place reading, mode = .string role place reading ∧
      (place = .plain ∨ place = .partnerBackslash n) := by
  unfold afterUnit at h
  rw [if_neg Bool.false_ne_true] at h
  split at h
  · split at h
    · cases h
      exact ⟨_, _, rfl, .inl rfl⟩
    · cases h
  · split at h
    · cases h
    split at h
    · cases h
      exact ⟨_, _, rfl, .inr rfl⟩
    · cases h
      exact ⟨_, _, rfl, .inl rfl⟩

theorem moves_of_stepString {role : StringRole} {place : StringPlace} {read : List Char}
    (coherent : Coherent ⟨frames, .string role place read⟩)
    (h : stepString false frames role place read c = .ok t) :
    Moves ⟨frames, .string role place read⟩ c t := by
  cases place with
  | plain =>
    simp only [stepString] at h
    split at h
    · next hc =>
      subst hc
      cases role with
      | value =>
        cases h
        exact .endText
      | name =>
        rcases frames with _ | ⟨done | ⟨done, name⟩, outer⟩
        · cases coherent
        · cases coherent
        · cases h
          exact .endName
    split at h
    · next hc =>
      cases h
      exact hc ▸ .inString .backslash
    split at h
    · cases h
    · next notQuote notBackslash notControl =>
      cases h
      exact .inString (.plain notQuote notBackslash (Nat.not_lt.mp notControl))
  | escape =>
    simp only [stepString] at h
    split at h
    · next hc =>
      cases h
      exact hc ▸ .inString .mark
    split at h
    · next escape =>
      cases h
      exact .inString (.short escape)
    · cases h
  | unit leading pending =>
    simp only [stepString] at h
    split at h
    · cases h
      exact .inString .digit
    split at h
    · next n value =>
      obtain ⟨mode, hmode, rfl⟩ := map_eq_ok.mp h
      obtain ⟨place, reading, rfl, rfl | rfl⟩ := mode_of_afterUnit hmode
      · exact .inString (.unit value)
      · exact .inString (.leadingUnit value)
    · cases h
  | partnerBackslash leading =>
    simp only [stepString] at h
    split at h
    · next hc =>
      cases h
      exact hc ▸ .inString .partnerBackslash
    · cases h
  | partnerLetter leading =>
    simp only [stepString] at h
    split at h
    · next hc =>
      cases h
      exact hc ▸ .inString .partnerLetter
    · cases h

/-- A step that succeeds is a move. -/
theorem moves_of_step {s : State} (coherent : Coherent s) (h : step false s c = .ok t) :
    Moves s c t := by
  obtain ⟨frames, mode⟩ := s
  cases mode with
  | string role place read => exact moves_of_stepString coherent h
  | numeral negative place =>
    simp only [step] at h
    split at h
    · next extended =>
      cases h
      exact .inNumeral extended
    · cases h
  | word word document =>
    rcases word with _ | ⟨first, _ | ⟨second, word⟩⟩
    · rcases frames with _ | ⟨_ | _, outer⟩ <;> exact absurd rfl coherent
    · simp only [step] at h
      split at h
      · next hc =>
        cases h
        exact hc ▸ .endWord
      · cases h
    · simp only [step] at h
      split at h
      · next hc =>
        cases h
        exact hc ▸ .inWord
      · cases h
  | value =>
    simp only [step] at h
    split at h
    · next blank =>
      cases h
      exact .blank trivial blank
    · exact moves_of_beginValue (.inl rfl) h
  | firstElement =>
    simp only [step] at h
    split at h
    · next blank =>
      cases h
      exact .blank trivial blank
    split at h
    · next hc =>
      subst hc
      rcases frames with _ | ⟨done | ⟨done, name⟩, outer⟩
      · cases coherent
      · cases h
        exact .closeArray (.inl rfl)
      · cases coherent
    · exact moves_of_beginValue (.inr rfl) h
  | firstName =>
    simp only [step] at h
    split at h
    · next blank =>
      cases h
      exact .blank trivial blank
    split at h
    · next hc =>
      subst hc
      rcases frames with _ | ⟨done | ⟨done, name⟩, outer⟩
      · cases coherent
      · cases coherent
      · cases h
        exact .closeObject (.inl rfl)
    split at h
    · next hc =>
      cases h
      exact hc ▸ .openName (.inl rfl)
    · cases h
  | name =>
    simp only [step] at h
    split at h
    · next blank =>
      cases h
      exact .blank trivial blank
    split at h
    · next hc =>
      cases h
      exact hc ▸ .openName (.inr rfl)
    · cases h
  | colon =>
    simp only [step] at h
    split at h
    · next blank =>
      cases h
      exact .blank trivial blank
    split at h
    · next hc =>
      cases h
      exact hc ▸ .colon
    · cases h
  | next =>
    simp only [step] at h
    split at h
    · next blank =>
      cases h
      exact .blank trivial blank
    rcases frames with _ | ⟨done | ⟨done, name⟩, outer⟩
    · cases h
    · simp only at h
      split at h
      · next hc =>
        cases h
        exact hc ▸ .nextElement
      split at h
      · next hc =>
        subst hc
        cases h
        exact .closeArray (.inr rfl)
      · cases h
    · simp only at h
      split at h
      · next hc =>
        cases h
        exact hc ▸ .nextMember
      split at h
      · next hc =>
        subst hc
        cases h
        exact .closeObject (.inr rfl)
      · cases h
  | done document =>
    simp only [step] at h
    split at h
    · next blank =>
      cases h
      exact .blank trivial blank
    · cases h

/-- What becomes of a state before the next character: a numeral may end. -/
inductive Settles : State → State → Prop where
  | same (s : State) : Settles s s
  | ended {frames : List Frame} {negative : Bool} {place : NumeralPlace} {n : JsonNumeral} {v : Json}
      (hended : ended? negative place = some n) :
      Settles ⟨frames, .numeral negative place⟩ (deliver v frames)

theorem Settles.coherent {s t : State} (h : Settles s t) (coherent : Coherent s) : Coherent t := by
  cases h with
  | same => exact coherent
  | ended hended => exact coherent_deliver _ _

theorem settles_of_settle {s : State} {next : Option Char} (h : settle false s next = .ok t) :
    Settles s t := by
  obtain ⟨frames, mode⟩ := s
  cases mode with
  | numeral negative place =>
    simp only [settle] at h
    split at h
    · cases h
      exact .same _
    · next n hextended hended =>
      split at h
      · cases h
      rw [deliverNumeral] at h
      split at h
      · cases h
        exact .ended hended
      · cases h
    · split at h <;> cases h
  | _ =>
    cases h
    exact .same _

/-- A text leads from a state to the end of a document. -/
inductive Accepts : State → List Char → Json → Prop where
  | finish {s : State} {v : Json} (settles : Settles s ⟨[], .done v⟩) : Accepts s [] v
  | step {s settled next : State} {c : Char} {rest : List Char} {v : Json}
      (settles : Settles s settled) (moves : Moves settled c next) (accepts : Accepts next rest v) :
      Accepts s (c :: rest) v

section Running
variable {ε : Type} {r : Reader ε} {s : State} {v : Json} {rest : List Char}

theorem check_eq_ok : r.check s = .ok t ↔ r.objection s = none ∧ s = t := by
  rw [Reader.check]
  cases r.objection s <;> simp

theorem lifted_eq_ok {α : Type} {x : Except Fault α} {a : α} :
    lifted (ε := ε) x = .ok a ↔ x = .ok a := by
  cases x <;> simp

theorem settled_eq_ok (attentive : Attentive r) {next : Option Char} :
    r.settled s next = .ok t ↔ settle false s next = .ok t ∧ r.objection t = none := by
  rw [Reader.settled, attentive, bind_eq_ok]
  simp only [lifted_eq_ok, check_eq_ok]
  constructor
  · rintro ⟨settled, hsettle, quiet, rfl⟩
    exact ⟨hsettle, quiet⟩
  · rintro ⟨hsettle, quiet⟩
    exact ⟨t, hsettle, quiet, rfl⟩

theorem readFrom_nil_eq_ok (attentive : Attentive r) :
    r.readFrom s [] = .ok v ↔
      ∃ frames, settle false s none = .ok ⟨frames, .done v⟩ ∧ r.objection ⟨frames, .done v⟩ = none := by
  rw [Reader.readFrom, Reader.finish, bind_eq_ok]
  simp only [settled_eq_ok attentive]
  constructor
  · rintro ⟨⟨frames, mode⟩, h, hdone⟩
    cases mode with
    | done document =>
      cases hdone
      exact ⟨frames, h⟩
    | _ => cases hdone
  · rintro ⟨frames, h⟩
    exact ⟨_, h, rfl⟩

theorem advance_eq_ok (attentive : Attentive r) :
    r.advance s c = .ok t ↔
      ∃ settled, settle false s (some c) = .ok settled ∧ r.objection settled = none ∧
        step false settled c = .ok t ∧ r.objection t = none := by
  rw [Reader.advance]
  simp only [bind_eq_ok, settled_eq_ok attentive, attentive _, lifted_eq_ok, check_eq_ok]
  constructor
  · rintro ⟨settled, ⟨hsettle, quiet⟩, next, hstep, quietNext, rfl⟩
    exact ⟨settled, hsettle, quiet, hstep, quietNext⟩
  · rintro ⟨settled, hsettle, quiet, hstep, quietNext⟩
    exact ⟨settled, ⟨hsettle, quiet⟩, t, hstep, quietNext, rfl⟩

theorem coherent_of_advance (attentive : Attentive r) (coherent : Coherent s)
    (h : r.advance s c = .ok t) : Coherent t := by
  obtain ⟨settled, hsettle, -, hstep, -⟩ := (advance_eq_ok attentive).mp h
  have coherentSettled := (settles_of_settle hsettle).coherent coherent
  exact (moves_of_step coherentSettled hstep).coherent coherentSettled

theorem readFrom_cons_eq_ok (attentive : Attentive r) :
    r.readFrom s (c :: rest) = .ok v ↔
      ∃ settled next, settle false s (some c) = .ok settled ∧ r.objection settled = none ∧
        step false settled c = .ok next ∧ r.objection next = none ∧ r.readFrom next rest = .ok v := by
  rw [Reader.readFrom]
  simp only [bind_eq_ok, advance_eq_ok attentive]
  constructor
  · rintro ⟨next, ⟨settled, hsettle, quiet, hstep, quietNext⟩, hread⟩
    exact ⟨settled, next, hsettle, quiet, hstep, quietNext, hread⟩
  · rintro ⟨settled, next, hsettle, quiet, hstep, quietNext, hread⟩
    exact ⟨next, ⟨settled, hsettle, quiet, hstep, quietNext⟩, hread⟩

/-- What a reader reads is accepted. -/
theorem accepts_of_readFrom (attentive : Attentive r) (coherent : Coherent s)
    (h : r.readFrom s rest = .ok v) : Accepts s rest v := by
  induction rest generalizing s with
  | nil =>
    obtain ⟨frames, hsettle, -⟩ := (readFrom_nil_eq_ok attentive).mp h
    have settles := settles_of_settle hsettle
    have coherentDone := settles.coherent coherent
    rcases frames with _ | ⟨_ | _, outer⟩
    · exact .finish settles
    · cases coherentDone
    · cases coherentDone
  | cons c rest ih =>
    obtain ⟨settled, next, hsettle, -, hstep, -, hread⟩ := (readFrom_cons_eq_ok attentive).mp h
    have settles := settles_of_settle hsettle
    have moves := moves_of_step (settles.coherent coherent) hstep
    exact .step settles moves (ih (moves.coherent (settles.coherent coherent)) hread)

/-- Without objections, a reader reads what any other one reads. -/
theorem impartial_of_readFrom (attentive : Attentive r) (h : r.readFrom s rest = .ok v) :
    (impartial : Reader ε).readFrom s rest = .ok v := by
  induction rest generalizing s with
  | nil =>
    obtain ⟨frames, hsettle, -⟩ := (readFrom_nil_eq_ok attentive).mp h
    exact (readFrom_nil_eq_ok attentive_impartial).mpr ⟨frames, hsettle, rfl⟩
  | cons c rest ih =>
    obtain ⟨settled, next, hsettle, -, hstep, -, hread⟩ := (readFrom_cons_eq_ok attentive).mp h
    exact (readFrom_cons_eq_ok attentive_impartial).mpr
      ⟨settled, next, hsettle, rfl, hstep, rfl, ih hread⟩

end Running

end HashedTree.ReadingMoves
