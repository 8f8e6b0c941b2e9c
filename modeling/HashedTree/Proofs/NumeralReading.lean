import HashedTree.Proofs.ReadingSteps
import Mathlib.Algebra.Order.Ring.Int

/-!
# An integer is read back from its digits

A numeral has no mark at its end. It is delivered when a character follows that does not continue
it, and in a written document that character is a comma, a bracket or the end of a line.
-/
namespace HashedTree.NumeralReading
open Json JsonNumeral JsonReading ReadingSteps AsciiCharacters Outcomes

variable {ε : Type} {r : Reader ε} {frames : List Frame} {rest : List Char} {negative : Bool}

/-- What follows a value in a written document. -/
def Delimits (rest : List Char) : Prop :=
  ∀ c ∈ rest.head?, c = ',' ∨ c = ']' ∨ c = '\x7d' ∨ isBlank c

/-- The integers that a numeral without fraction and exponent may stand for. -/
def InRange (n : Int) : Prop := -2 ^ 63 ≤ n ∧ n < 2 ^ 64

instance (n : Int) : Decidable (InRange n) := inferInstanceAs (Decidable (_ ∧ _))

private theorem le_ofDigitChars (digits : List Char) (word : Nat) :
    word ≤ Nat.ofDigitChars 10 digits word := by
  rw [Nat.ofDigitChars_eq_ofDigitChars_zero]
  have hpower : 0 < 10 ^ digits.length := Nat.pow_pos (by decide)
  have := Nat.le_mul_of_pos_left word hpower
  omega

/-- Digits that fit into a word are all gathered. -/
theorem gather_of_lt {digits : List Char} {word : Nat}
    (fits : Nat.ofDigitChars 10 digits word < 2 ^ 64) :
    gather word digits = (Nat.ofDigitChars 10 digits word, 0) := by
  induction digits generalizing word with
  | nil => simp [gather]
  | cons c digits ih =>
    rw [Nat.ofDigitChars_cons, Nat.mul_comm] at fits ⊢
    have hle := le_ofDigitChars digits (word * 10 + (c.toNat - '0'.toNat))
    have hnext : word * 10 + digitValue c < Nat.pow 2 64 := Nat.lt_of_le_of_lt hle fits
    simp only [gather, if_pos hnext]
    exact ih fits

theorem gather_toDigits {n : Nat} (h : n < 2 ^ 64) : gather 0 (Nat.toDigits 10 n) = (n, 0) := by
  have hdigits : Nat.ofDigitChars 10 (Nat.toDigits 10 n) 0 = n := Nat.ofDigitChars_ten_toDigits
  rw [gather_of_lt (by rwa [hdigits]), hdigits]

/-- The digits of a positive number start with a digit other than zero. -/
theorem toDigits_eq_cons {n : Nat} (positive : n ≠ 0) :
    ∃ c digits, Nat.toDigits 10 n = c :: digits ∧ c ≠ '0' ∧ isDigit c ∧
      ∀ d ∈ digits, isDigit d := by
  have small : ∀ d < 10, isDigit d.digitChar ∧ (d ≠ 0 → d.digitChar ≠ '0') := by decide
  induction n using Nat.strongRecOn with
  | ind n ih =>
    by_cases h : n < 10
    · obtain ⟨hdigit, hne⟩ := small n h
      exact ⟨n.digitChar, [], Nat.toDigits_of_lt_base h, hne positive, hdigit, nofun⟩
    · obtain ⟨c, digits, hdigits, hzero, hc, hall⟩ := ih (n / 10) (by omega) (by omega)
      refine ⟨c, digits ++ [(n % 10).digitChar], ?_, hzero, hc, ?_⟩
      · rw [Nat.toDigits_of_base_le (by decide) (by omega), hdigits, List.cons_append]
      · intro d hd
        rcases List.mem_append.mp hd with hd | hd
        · exact hall d hd
        · rw [List.mem_singleton.mp hd]
          exact (small _ (Nat.mod_lt n (by decide))).1

theorem toDigits_head (n : Nat) : ∃ c digits, Nat.toDigits 10 n = c :: digits ∧ isDigit c := by
  by_cases h : n = 0
  · exact ⟨'0', [], by rw [h, Nat.toDigits_zero], rfl⟩
  · obtain ⟨c, digits, hdigits, -, hc, -⟩ := toDigits_eq_cons h
    exact ⟨c, digits, hdigits, hc⟩

theorem readFrom_extended (attentive : Attentive r) (quiet : Quiet r frames)
    {place next : NumeralPlace} {c : Char} (h : extended? place c = some next) :
    r.readFrom ⟨frames, .numeral negative place⟩ (c :: rest) =
      r.readFrom ⟨frames, .numeral negative next⟩ rest := by
  have hsettle : settle false ⟨frames, .numeral negative place⟩ (some c) =
      .ok ⟨frames, .numeral negative place⟩ := by
    simp only [settle, Option.bind_some, h]
  have hstep : step false ⟨frames, .numeral negative place⟩ c =
      .ok ⟨frames, .numeral negative next⟩ := by
    simp only [step, h]
  have hcheck : ∀ place, r.check ⟨frames, .numeral negative place⟩ =
      .ok ⟨frames, .numeral negative place⟩ := fun place => check_of_quiet (quiet _)
  rw [Reader.readFrom, Reader.advance, Reader.settled, attentive, hsettle, lifted_ok, ok_bind,
    hcheck, ok_bind, attentive, hstep, lifted_ok, ok_bind, hcheck, ok_bind]

/-- Digits are taken one by one wherever a digit may be followed by another one. -/
theorem readFrom_digits (attentive : Attentive r) (quiet : Quiet r frames)
    {place : List Char → NumeralPlace}
    (hplace : ∀ read d, isDigit d → extended? (place read) d = some (place (d :: read)))
    {digits : List Char} (hdigits : ∀ d ∈ digits, isDigit d) (read : List Char) :
    r.readFrom ⟨frames, .numeral negative (place read)⟩ (digits ++ rest) =
      r.readFrom ⟨frames, .numeral negative (place (digits.reverse ++ read))⟩ rest := by
  induction digits generalizing read with
  | nil => rfl
  | cons d digits ih =>
    rw [List.forall_mem_cons] at hdigits
    rw [List.cons_append, readFrom_extended attentive quiet (hplace read d hdigits.1), ih hdigits.2,
      List.reverse_cons, List.append_assoc, List.singleton_append]

theorem extended?_whole (read : List Char) (d : Char) (hd : isDigit d) :
    extended? (.whole read) d = some (.whole (d :: read)) := if_pos hd

/-- No numeral goes on with what follows a value. -/
theorem not_extended_of_delimits (delimits : Delimits rest) (place : NumeralPlace) :
    rest.head?.bind (extended? place) = none ∧ rest.head?.any isDigit = false := by
  cases rest with
  | nil => exact ⟨rfl, rfl⟩
  | cons c rest =>
    have hc := delimits c rfl
    simp only [isBlank, Bool.or_eq_true, decide_eq_true_eq, or_assoc] at hc
    rcases hc with rfl | rfl | rfl | rfl | rfl | rfl | rfl <;> cases place <;> exact ⟨rfl, rfl⟩

/-- A numeral that ends before a delimiter is delivered if it has a value. -/
theorem readFrom_ended (attentive : Attentive r) (delimits : Delimits rest) {place : NumeralPlace}
    {n : JsonNumeral} (hended : ended? negative place = some n) :
    r.readFrom ⟨frames, .numeral negative place⟩ rest =
      onward n.value? fun v => r.readFrom (deliver v frames) rest := by
  obtain ⟨hextended, hdigit⟩ := not_extended_of_delimits delimits place
  have hsettle : settle false ⟨frames, .numeral negative place⟩ rest.head? =
      deliverNumeral false frames n := by
    simp only [settle, hextended, hended, hdigit, Bool.false_eq_true, if_false]
  -- The delimiter settles the numeral before it is read itself.
  have hsettled : r.settled ⟨frames, .numeral negative place⟩ rest.head? =
      (lifted (deliverNumeral false frames n)).bind r.check := by
    rw [Reader.settled, attentive, hsettle]
  rw [deliverNumeral] at hsettled
  cases hvalue : n.value? with
  | some v =>
    rw [hvalue] at hsettled
    refine readFrom_congr (hsettled.trans ?_)
    rw [lifted_ok, ok_bind, settled_of_settled (settled_deliver v frames)]
  | none =>
    rw [hvalue] at hsettled
    exact readFrom_of_settled_error hsettled

/-- The digits of a positive number, behind its sign if it has one. -/
private theorem readFrom_toDigits (attentive : Attentive r) (quiet : Quiet r frames)
    (delimits : Delimits rest) {n : Nat} (positive : n ≠ 0) {v : Json} {s : State}
    (hvalue : JsonNumeral.value? ⟨negative, Nat.toDigits 10 n, none, none⟩ = some v)
    (hstart : ∀ c rest, c ≠ '0' → isDigit c →
      r.readFrom s (c :: rest) = r.readFrom ⟨frames, .numeral negative (.whole [c])⟩ rest) :
    r.readFrom s (Nat.toDigits 10 n ++ rest) = r.readFrom (deliver v frames) rest := by
  obtain ⟨c, digits, hdigits, hzero, hc, hall⟩ := toDigits_eq_cons positive
  have hended : ended? negative (.whole (digits.reverse ++ [c])) =
      some ⟨negative, Nat.toDigits 10 n, none, none⟩ := by
    simp only [ended?, List.reverse_append, List.reverse_reverse, List.reverse_singleton,
      List.singleton_append, hdigits]
  rw [hdigits, List.cons_append, hstart c _ hzero hc,
    readFrom_digits attentive quiet extended?_whole hall,
    readFrom_ended attentive delimits hended, hvalue, onward_some]

theorem ne_of_isDigit {c d : Char} (hc : isDigit c) (hd : isDigit d = false) : c ≠ d := by
  rintro rfl
  rw [hd] at hc
  cases hc

theorem isBlank_of_isDigit {c : Char} (hc : isDigit c) : isBlank c = false := by
  have hne : ∀ d, isDigit d = false → c ≠ d := fun d => ne_of_isDigit hc
  simp [isBlank, hne ' ' rfl, hne '\n' rfl, hne '\t' rfl, hne '\r' rfl]

theorem step_digit {c : Char} (hzero : c ≠ '0') (hc : isDigit c) :
    step false ⟨frames, .value⟩ c = .ok ⟨frames, .numeral false (.whole [c])⟩ := by
  have hne : ∀ d, isDigit d = false → c ≠ d := fun d => ne_of_isDigit hc
  simp [step, isBlank_of_isDigit hc, beginValue, hne '"' rfl, hne '[' rfl, hne '\x7b' rfl,
    hne 'n' rfl, hne 't' rfl, hne 'f' rfl, hne '-' rfl, hzero, hc]

theorem readFrom_natural (attentive : Attentive r) (quiet : Quiet r frames)
    (delimits : Delimits rest) {n : Nat} (h : n < 2 ^ 64) :
    r.readFrom ⟨frames, .value⟩ (Nat.toDigits 10 n ++ rest) =
      r.readFrom (deliver (.integer n) frames) rest := by
  by_cases hzero : n = 0
  · subst hzero
    have hstart : step false ⟨frames, .value⟩ '0' = .ok ⟨frames, .numeral false .zero⟩ := rfl
    rw [Nat.toDigits_zero, List.singleton_append,
      readFrom_of_quiet_step attentive (quiet _) hstart trivial (quiet _)]
    have hended : ended? false .zero = some ⟨false, ['0'], none, none⟩ := rfl
    exact readFrom_ended attentive delimits hended
  · have hvalue : value? ⟨false, Nat.toDigits 10 n, none, none⟩ = some (.integer n) := by
      simp [value?, gather_toDigits h]
    refine readFrom_toDigits attentive quiet delimits hzero hvalue fun c rest hc hdigit => ?_
    exact readFrom_of_quiet_step attentive (quiet _) (step_digit hc hdigit) trivial (quiet _)

theorem readFrom_negative (attentive : Attentive r) (quiet : Quiet r frames)
    (delimits : Delimits rest) {n : Nat} (positive : n ≠ 0) (h : n ≤ 2 ^ 63) :
    r.readFrom ⟨frames, .value⟩ ('-' :: (Nat.toDigits 10 n ++ rest)) =
      r.readFrom (deliver (.integer (-n)) frames) rest := by
  have hstart : step false ⟨frames, .value⟩ '-' = .ok ⟨frames, .numeral true .sign⟩ := rfl
  have hvalue : value? ⟨true, Nat.toDigits 10 n, none, none⟩ = some (.integer (-n)) := by
    have hfits : ¬(n = 0 ∨ Nat.pow 2 63 < n) := by
      simp only [not_or, Nat.not_lt]
      exact ⟨positive, h⟩
    simp only [value?, gather_toDigits (by omega : n < 2 ^ 64), Bool.not_true, Bool.false_eq_true,
      if_false, if_neg hfits]
  rw [readFrom_of_quiet_step attentive (quiet _) hstart trivial (quiet _)]
  refine readFrom_toDigits attentive quiet delimits positive hvalue fun c rest hc hdigit => ?_
  exact readFrom_extended attentive quiet (by rw [extended?, if_neg hc, if_pos hdigit])

/-- An integer is read back from its text. -/
theorem readFrom_integer (attentive : Attentive r) (quiet : Quiet r frames)
    (delimits : Delimits rest) {n : Int} (inRange : InRange n) :
    r.readFrom ⟨frames, .value⟩ (integerText n ++ rest) =
      r.readFrom (deliver (.integer n) frames) rest := by
  obtain ⟨lower, upper⟩ := inRange
  cases n with
  | ofNat n => exact readFrom_natural attentive quiet delimits (Int.ofNat_lt.mp upper)
  | negSucc n =>
    exact readFrom_negative attentive quiet delimits (Nat.succ_ne_zero n) (by omega)

end HashedTree.NumeralReading
