import HashedTree.Proofs.DigestText

/-!
# All spellings of a digest are read as this digest

The digits of a digest may be written in either case, all alike or not, and behind `0x`, behind `0X`
or without a mark. No mark is taken for digits: an `x` is none.
-/
namespace HashedTree.DigestSpelling
open ByteBlocks HexText Utf8Text DigestText

variable {c lower : Char} {n : UInt8} {bytes : Bytes} {digits : List Char}

/-- Two digits for each byte of a digest, in either case, behind a mark or not. -/
def IsSpelling (d : Digest) (text : String) : Prop :=
  ∃ mark digits, text.toList = mark ++ digits ∧ mark ∈ [[], ['0', 'x'], ['0', 'X']] ∧
    digits.map Char.toLower = encode d.bytes

private theorem eq_or_upper_of_toLower (h : c.toLower = lower) :
    c = lower ∨ ∃ k : Fin 26, c = Char.ofNat (65 + k) := by
  by_cases hupper : 'A'.val ≤ c.val ∧ c.val ≤ 'Z'.val
  · have hfirst : 65 ≤ c.toNat := hupper.1
    have hlast : c.toNat ≤ 90 := hupper.2
    refine .inr ⟨⟨c.toNat - 65, by omega⟩, ?_⟩
    rw [Nat.add_sub_cancel' hfirst, Char.ofNat_toNat]
  · exact .inl ((dif_neg hupper).symm.trans h)

/-- A digit has its value in either case. -/
theorem value?_of_toLower (hn : n < 16) (h : c.toLower = digit n) :
    c.toNat < 128 ∧ value? (asciiByte c) = some n := by
  have upper : ∀ (k : Fin 26) (n : Fin 16), (Char.ofNat (65 + k)).toLower = digit (UInt8.ofNat n) →
      (Char.ofNat (65 + k)).toNat < 128 ∧
        value? (asciiByte (Char.ofNat (65 + k))) = some (UInt8.ofNat n) := by decide
  rcases eq_or_upper_of_toLower h with rfl | ⟨k, rfl⟩
  · exact value?_digit hn
  · have hk := upper k ⟨n.toNat, hn⟩
    rw [UInt8.ofNat_toNat] at hk
    exact hk h

private theorem eq_cons_cons_of_lower {b : UInt8}
    (h : digits.map Char.toLower = encode (b :: bytes)) :
    ∃ high low rest, digits = high :: low :: rest ∧ high.toLower = digit (b / 16) ∧
      low.toLower = digit (b % 16) ∧ rest.map Char.toLower = encode bytes := by
  rw [encode_cons] at h
  obtain ⟨high, others, rfl, hhigh, hothers⟩ := List.map_eq_cons_iff.mp h
  obtain ⟨low, rest, rfl, hlow, hrest⟩ := List.map_eq_cons_iff.mp hothers
  exact ⟨high, low, rest, rfl, hhigh, hlow, hrest⟩

theorem ascii_of_lower (h : digits.map Char.toLower = encode bytes) :
    ∀ c ∈ digits, c.toNat < 128 := by
  induction bytes generalizing digits with
  | nil =>
    rw [List.map_eq_nil_iff.mp h]
    nofun
  | cons b bytes ih =>
    obtain ⟨high, low, rest, rfl, hhigh, hlow, hrest⟩ := eq_cons_cons_of_lower h
    rw [List.forall_mem_cons, List.forall_mem_cons]
    exact ⟨(value?_of_toLower (high_lt b) hhigh).1, (value?_of_toLower (low_lt b) hlow).1, ih hrest⟩

theorem decode_of_lower (offset : Nat) (h : digits.map Char.toLower = encode bytes) :
    decode offset (digits.map asciiByte) = .ok bytes := by
  induction bytes generalizing offset digits with
  | nil =>
    rw [List.map_eq_nil_iff.mp h]
    rfl
  | cons b bytes ih =>
    obtain ⟨high, low, rest, rfl, hhigh, hlow, hrest⟩ := eq_cons_cons_of_lower h
    rw [List.map_cons, List.map_cons, decode, (value?_of_toLower (high_lt b) hhigh).2,
      (value?_of_toLower (low_lt b) hlow).2]
    dsimp only
    rw [ih _ hrest, halves]
    rfl

/-- Digits are not taken for a mark. -/
theorem unmarked_of_lower (h : digits.map Char.toLower = encode bytes) :
    unmarked (digits.map asciiByte) = digits.map asciiByte := by
  cases bytes with
  | nil =>
    rw [List.map_eq_nil_iff.mp h]
    rfl
  | cons b bytes =>
    obtain ⟨high, low, rest, rfl, -, hlow, -⟩ := eq_cons_cons_of_lower h
    have hvalue := (value?_of_toLower (low_lt b) hlow).2
    have apart {b : UInt8} (noDigit : value? b = none) : asciiByte low ≠ b := by
      rintro rfl
      cases hvalue.symm.trans noDigit
    rw [List.map_cons, List.map_cons]
    unfold unmarked
    split
    · next heq => exact absurd (List.cons.inj (List.cons.inj heq).2).1 (apart (by decide))
    · next heq => exact absurd (List.cons.inj (List.cons.inj heq).2).1 (apart (by decide))
    · rfl

/-- However a digest is spelled, it is read. -/
theorem ofHex_of_isSpelling {d : Digest} {text : String} (h : IsSpelling d text) :
    Digest.ofHex text = .ok d := by
  obtain ⟨mark, digits, htext, hmark, hdigits⟩ := h
  have ascii : ∀ c ∈ mark ++ digits, c.toNat < 128 := by
    rw [List.forall_mem_append]
    refine ⟨?_, ascii_of_lower hdigits⟩
    simp only [List.mem_cons, List.not_mem_nil, or_false] at hmark
    rcases hmark with rfl | rfl | rfl <;> simp
  have hunmarked : unmarked ((mark ++ digits).map asciiByte) = digits.map asciiByte := by
    simp only [List.mem_cons, List.not_mem_nil, or_false] at hmark
    rcases hmark with rfl | rfl | rfl
    · exact unmarked_of_lower hdigits
    · rfl
    · rfl
  have hlength : (digits.map asciiByte).length = 64 := by
    rw [List.length_map, ← List.length_map Char.toLower, hdigits, length_encode, d.length_eq]
  change Digest.ofHexBytes (utf8 text) = _
  rw [← String.ofList_toList (s := text), htext, Digest.ofHexBytes, utf8_ofList ascii, hunmarked]
  exact ofDigits_of_decode hlength (decode_of_lower 0 hdigits)

/-- The digits that are written are small ones. -/
theorem toLower_encode (bytes : Bytes) : (encode bytes).map Char.toLower = encode bytes := by
  have lower : ∀ n : Fin 16, (digit (UInt8.ofNat n)).toLower = digit (UInt8.ofNat n) := by decide
  have lowerDigit : ∀ n : UInt8, n < 16 → (digit n).toLower = digit n := by
    intro n hn
    have hdigit := lower ⟨n.toNat, hn⟩
    rwa [UInt8.ofNat_toNat] at hdigit
  induction bytes with
  | nil => rfl
  | cons b bytes ih =>
    rw [encode_cons, List.map_cons, List.map_cons, lowerDigit _ (high_lt b),
      lowerDigit _ (low_lt b), ih]

end HashedTree.DigestSpelling
