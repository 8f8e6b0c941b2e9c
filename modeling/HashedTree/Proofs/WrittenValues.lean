import HashedTree.Proofs.DocumentGrammar
import HashedTree.Proofs.NodeSchema

/-!
# Integers that are written

A numeral is an integer only if it has neither fraction nor exponent and a word holds it. A zero with
a minus is none. So all integers of a written document are in the range of words, and the sizes are
the numerals without sign among them.
-/
namespace HashedTree.WrittenValues
open JsonNumeral NumeralReading DocumentGrammar NodeSchema

variable {digits whole : List Char} {n : JsonNumeral} {w : Written} {v : Json}

/-- Digits are all gathered only if they fit into a word. -/
theorem ofDigitChars_of_gather {word gathered : Nat} (fits : word < 2 ^ 64)
    (h : gather word digits = (gathered, 0)) :
    Nat.ofDigitChars 10 digits word = gathered ∧ gathered < 2 ^ 64 := by
  induction digits generalizing word with
  | nil =>
    simp only [gather, Prod.mk.injEq, and_true] at h
    subst h
    exact ⟨Nat.ofDigitChars_nil, fits⟩
  | cons c digits ih =>
    simp only [gather] at h
    split at h
    · next hnext =>
      rw [Nat.ofDigitChars_cons, Nat.mul_comm]
      exact ih hnext h
    · cases h

/-- A numeral is a double, an integer without a sign, or a negative one. -/
theorem value?_cases (h : n.value? = some v) :
    (∃ x, v = .real x) ∨
      n.fraction = none ∧ n.exponent = none ∧ natural n.whole < 2 ^ 64 ∧
        (n.negative = false ∧ v = .integer (natural n.whole) ∨
          n.negative = true ∧ ∃ k : Int, v = .integer k ∧ -2 ^ 63 ≤ k ∧ k < 0) := by
  obtain ⟨negative, whole, fraction, exponent⟩ := n
  cases hgather : gather 0 whole with
  | mk word excess =>
    simp only [value?, hgather] at h
    split at h
    · obtain ⟨rfl, fits⟩ := ofDigitChars_of_gather (by decide) hgather
      cases negative with
      | false =>
        obtain rfl := Option.some.inj h
        exact .inr ⟨rfl, rfl, fits, .inl ⟨rfl, rfl⟩⟩
      | true =>
        simp only [Bool.not_true, Bool.false_eq_true, if_false] at h
        split at h
        · exact .inl ⟨_, (Option.some.inj h).symm⟩
        · next inRange =>
          obtain ⟨positive, hle⟩ := not_or.mp inRange
          have hword : Nat.ofDigitChars 10 whole 0 ≤ 2 ^ 63 := Nat.not_lt.mp hle
          obtain rfl := Option.some.inj h
          exact .inr ⟨rfl, rfl, fits, .inr ⟨rfl, _, rfl, by omega, by omega⟩⟩
    · obtain ⟨x, -, rfl⟩ := Option.map_eq_some_iff.mp h
      exact .inl ⟨_, rfl⟩

theorem ranged_of_numeral (h : n.value? = some v) : Ranged v := by
  rcases value?_cases h with ⟨x, rfl⟩ | ⟨-, -, fits, ⟨-, rfl⟩ | ⟨-, k, rfl, hle, hlt⟩⟩
  · exact .real x
  · exact .integer ⟨by omega, by exact_mod_cast fits⟩
  · exact .integer ⟨hle, by omega⟩

mutual
/-- The integers in a document that is written are in range. -/
theorem ranged_of_value? : ∀ {w : Written} {v : Json}, w.value? = some v → Ranged v
  | .null, _, h => by
    cases h
    exact .null
  | .boolean value, _, h => by
    cases h
    exact .boolean value
  | .numeral n, _, h => ranged_of_numeral h
  | .string pieces, _, h => by
    obtain ⟨text, -, rfl⟩ := Option.map_eq_some_iff.mp h
    exact .string text
  | .array elements, _, h => by
    obtain ⟨vs, hvalues, rfl⟩ := Option.map_eq_some_iff.mp h
    exact .array (ranged_of_values? hvalues)
  | .object members, _, h => by
    obtain ⟨ms, hvalues, rfl⟩ := Option.map_eq_some_iff.mp h
    exact .object (ranged_of_memberValues? hvalues)

theorem ranged_of_values? : ∀ {ws : List Written} {vs : List Json}, values? ws = some vs →
    ∀ v ∈ vs, Ranged v
  | [], _, h => by
    cases h
    exact List.forall_mem_nil _
  | w :: ws, _, h => by
    obtain ⟨v, hvalue, hrest⟩ := Option.bind_eq_some_iff.mp h
    obtain ⟨vs, hvalues, rfl⟩ := Option.map_eq_some_iff.mp hrest
    exact List.forall_mem_cons.mpr ⟨ranged_of_value? hvalue, ranged_of_values? hvalues⟩

theorem ranged_of_memberValues? : ∀ {ms : List WrittenMember} {members : List (String × Json)},
    memberValues? ms = some members → ∀ member ∈ members, Ranged member.2
  | [], _, h => by
    cases h
    exact List.forall_mem_nil _
  | (pieces, w) :: ms, _, h => by
    obtain ⟨name, -, hmember⟩ := Option.bind_eq_some_iff.mp h
    obtain ⟨v, hvalue, hrest⟩ := Option.bind_eq_some_iff.mp hmember
    obtain ⟨members, hvalues, rfl⟩ := Option.map_eq_some_iff.mp hrest
    exact List.forall_mem_cons.mpr ⟨ranged_of_value? hvalue, ranged_of_memberValues? hvalues⟩
end

end HashedTree.WrittenValues
