import HashedTree.Proofs.DigestSpelling
import HashedTree.Proofs.Outcomes

/-!
# Which texts are digests, and what is wrong with the others

Behind at most one mark there must be 64 digits in either case, two for each byte. Every other text
has a fault: an odd number of bytes, or else a wrong number of them, or else a first byte that is no
digit. Lengths and positions count bytes, also where a character takes several.
-/
namespace HashedTree.DigestFormat
open ByteBlocks HexText Utf8Text DigestText DigestSpelling Outcomes

/-- What stands behind one mark, if there is a mark. -/
def behindMark (text : List Char) : List Char :=
  if ['0', 'x'] <+: text ∨ ['0', 'X'] <+: text then text.drop 2 else text

/-- Two digits for each byte, the higher one first. -/
def smallDigits (bytes : Bytes) : List Char :=
  bytes.flatMap fun b => [Nat.digitChar (b.toNat / 16), Nat.digitChar (b.toNat % 16)]

/-- What is counted where lengths and positions are given. -/
def bytesBehindMark (text : String) : Bytes := utf8 (String.ofList (behindMark text.toList))

def digitBytes : Bytes := utf8 "0123456789abcdefABCDEF"

/-- A byte that is no digit, with the number of bytes in front of it, which all are digits. -/
def FirstNoDigit (bytes : Bytes) (byte : UInt8) (position : Nat) : Prop :=
  ∃ before after, bytes = before ++ byte :: after ∧ before.length = position ∧
    (∀ b ∈ before, b ∈ digitBytes) ∧ byte ∉ digitBytes

variable {c : Char} {b byte high low : UInt8} {offset position : Nat} {text bytes : Bytes}
  {chars word : List Char} {d : Digest}

/-! ### Digits -/

theorem digit_eq_digitChar {n : UInt8} (h : n < 16) : digit n = Nat.digitChar n.toNat := by
  have all : ∀ n : Fin 16, digit (UInt8.ofNat n) = Nat.digitChar (UInt8.ofNat n).toNat := by decide
  simpa using all ⟨n.toNat, h⟩

theorem encode_eq_smallDigits (bytes : Bytes) : encode bytes = smallDigits bytes := by
  refine congrArg (bytes.flatMap ·) (funext fun b => ?_)
  rw [digit_eq_digitChar (high_lt b), digit_eq_digitChar (low_lt b), UInt8.toNat_div,
    UInt8.toNat_mod]
  rfl

theorem isSome_value?_iff (b : UInt8) : (value? b).isSome ↔ b ∈ digitBytes := by
  have all : ∀ n : Fin 256, (value? (UInt8.ofNat n)).isSome ↔ UInt8.ofNat n ∈ digitBytes := by
    decide +kernel
  simpa using all ⟨b.toNat, b.toNat_lt⟩

theorem value?_eq_none_iff (b : UInt8) : value? b = none ↔ b ∉ digitBytes := by
  rw [← isSome_value?_iff, Bool.not_eq_true, Option.isSome_eq_false_iff, Option.isNone_iff_eq_none]

/-- A character with the value of a digit is this digit in either case. -/
theorem toLower_of_value? {n : UInt8} (ascii : c.toNat < 128)
    (h : value? (asciiByte c) = some n) : n < 16 ∧ c.toLower = digit n := by
  have all : ∀ k : Fin 128, ∀ n ∈ value? (asciiByte (Char.ofNat k)),
      n < 16 ∧ (Char.ofNat k).toLower = digit n := by decide +kernel
  simpa using all ⟨c.toNat, ascii⟩ n (by simpa using h)

theorem halves_of_lt (hhigh : high < 16) (hlow : low < 16) :
    (high * 16 + low) / 16 = high ∧ (high * 16 + low) % 16 = low := by
  rw [UInt8.lt_iff_toNat_lt] at hhigh hlow
  change high.toNat < 16 at hhigh
  change low.toNat < 16 at hlow
  rw [← UInt8.toNat_inj, ← UInt8.toNat_inj, UInt8.toNat_div, UInt8.toNat_mod, UInt8.toNat_add,
    UInt8.toNat_mul]
  change (high.toNat * 16 % 256 + low.toNat) % 256 / 16 = _ ∧
    (high.toNat * 16 % 256 + low.toNat) % 256 % 16 = _
  omega

/-! ### What is read from bytes -/

theorem decode_cons_cons (rest : Bytes) :
    decode offset (high :: low :: rest) =
      match value? high, value? low with
      | some h, some l => (decode (offset + 2) rest).map ((h * 16 + l) :: ·)
      | none, _ => .error (offset, high)
      | some _, none => .error (offset + 1, low) := rfl

theorem FirstNoDigit.cons (digit : b ∈ digitBytes) (h : FirstNoDigit bytes byte position) :
    FirstNoDigit (b :: bytes) byte (position + 1) := by
  obtain ⟨before, after, rfl, rfl, digits, noDigit⟩ := h
  exact ⟨b :: before, after, rfl, rfl, List.forall_mem_cons.mpr ⟨digit, digits⟩, noDigit⟩

theorem firstNoDigit_self (noDigit : byte ∉ digitBytes) (after : Bytes) :
    FirstNoDigit (byte :: after) byte 0 :=
  ⟨[], after, rfl, rfl, List.forall_mem_nil _, noDigit⟩

/-- An even number of bytes is read, or there is a first one that is no digit. -/
theorem decode_cases : ∀ (offset : Nat) (text : Bytes), text.length % 2 = 0 →
    (∃ bytes, decode offset text = .ok bytes ∧ ∀ b ∈ text, b ∈ digitBytes) ∨
      ∃ byte position, decode offset text = .error (offset + position, byte) ∧
        FirstNoDigit text byte position
  | _, [], _ => .inl ⟨[], rfl, List.forall_mem_nil _⟩
  | _, [_], even => by simp at even
  | offset, high :: low :: rest, even => by
    have evenRest : rest.length % 2 = 0 := by
      simp only [List.length_cons] at even
      omega
    rw [decode_cons_cons]
    cases hhigh : value? high with
    | none =>
      exact .inr ⟨high, 0, rfl, firstNoDigit_self ((value?_eq_none_iff high).mp hhigh) _⟩
    | some h =>
      have isDigit : high ∈ digitBytes := (isSome_value?_iff high).mp (hhigh ▸ rfl)
      cases hlow : value? low with
      | none =>
        have first := firstNoDigit_self ((value?_eq_none_iff low).mp hlow) rest
        exact .inr ⟨low, 1, rfl, first.cons isDigit⟩
      | some l =>
        have isDigitLow : low ∈ digitBytes := (isSome_value?_iff low).mp (hlow ▸ rfl)
        obtain ⟨bytes, read, digits⟩ | ⟨byte, position, failed, first⟩ :=
          decode_cases (offset + 2) rest evenRest
        · refine .inl ⟨(h * 16 + l) :: bytes, by simp only [read]; rfl, ?_⟩
          exact List.forall_mem_cons.mpr ⟨isDigit, List.forall_mem_cons.mpr ⟨isDigitLow, digits⟩⟩
        · refine .inr ⟨byte, position + 2, ?_, (first.cons isDigitLow).cons isDigit⟩
          simp only [failed]
          rw [Nat.add_assoc, Nat.add_comm 2]
          rfl

/-- There is only one first byte that is no digit. -/
theorem FirstNoDigit.unique {other : UInt8} {place : Nat} (h : FirstNoDigit bytes byte position)
    (h' : FirstNoDigit bytes other place) : byte = other ∧ position = place := by
  obtain ⟨before, after, rfl, rfl, digits, noDigit⟩ := h
  obtain ⟨before', after', same, rfl, digits', noDigit'⟩ := h'
  obtain ⟨more, rfl, hrest⟩ | ⟨more, rfl, hrest⟩ := List.append_eq_append_iff.mp same
  · cases more with
    | nil => exact ⟨(List.cons.inj hrest).1, by simp⟩
    | cons b more =>
      obtain ⟨rfl, -⟩ := List.cons.inj hrest
      exact absurd (digits' _ (by simp)) noDigit
  · cases more with
    | nil => exact ⟨(List.cons.inj hrest).1.symm, by simp⟩
    | cons b more =>
      obtain ⟨rfl, -⟩ := List.cons.inj hrest
      exact absurd (digits _ (by simp)) noDigit'

theorem FirstNoDigit.not_all (h : FirstNoDigit bytes byte position)
    (digits : ∀ b ∈ bytes, b ∈ digitBytes) : False := by
  obtain ⟨before, after, rfl, -, -, noDigit⟩ := h
  exact noDigit (digits byte (by simp))

theorem decode_eq_error_iff (even : text.length % 2 = 0) :
    decode 0 text = .error (position, byte) ↔ FirstNoDigit text byte position := by
  obtain ⟨bytes, read, digits⟩ | ⟨found, place, failed, first⟩ := decode_cases 0 text even
  · rw [read]
    exact ⟨nofun, fun h => (h.not_all digits).elim⟩
  · rw [failed, Nat.zero_add]
    constructor
    · rintro ⟨⟩
      exact first
    · intro h
      obtain ⟨rfl, rfl⟩ := first.unique h
      rfl

theorem digits_of_decode (even : text.length % 2 = 0) (h : decode 0 text = .ok bytes) :
    ∀ b ∈ text, b ∈ digitBytes := by
  obtain ⟨_, -, digits⟩ | ⟨_, _, failed, -⟩ := decode_cases 0 text even
  · exact digits
  · cases h.symm.trans failed

/-! ### What is read from characters -/

/-- A character beyond ASCII has no byte of ASCII. -/
theorem ascii_of_mem_utf8EncodeChar (h : b ∈ String.utf8EncodeChar c) (small : b.toNat < 128) :
    c.toNat < 128 := by
  refine Decidable.byContradiction fun beyond => ?_
  have notSingle : ¬ c.val.toNat ≤ 127 := fun hle => beyond (Nat.lt_succ_of_le hle)
  have marked : ∀ m, 128 ≤ m → m < 256 → ¬ (UInt8.ofNat m).toNat < 128 := by
    intro m hle hlt
    rw [UInt8.toNat_ofNat', Nat.mod_eq_of_lt hlt]
    exact Nat.not_lt.mpr hle
  simp only [String.utf8EncodeChar, if_neg notSingle] at h
  split at h
  · simp only [List.mem_cons, List.not_mem_nil, or_false] at h
    obtain rfl | rfl := h <;> exact marked _ (by omega) (by omega) small
  split at h
  · simp only [List.mem_cons, List.not_mem_nil, or_false] at h
    obtain rfl | rfl | rfl := h <;> exact marked _ (by omega) (by omega) small
  · simp only [List.mem_cons, List.not_mem_nil, or_false] at h
    obtain rfl | rfl | rfl | rfl := h <;> exact marked _ (by omega) (by omega) small

theorem ascii_of_utf8 (small : ∀ b ∈ chars.flatMap String.utf8EncodeChar, b.toNat < 128) :
    ∀ c ∈ chars, c.toNat < 128 := by
  intro c hc
  obtain ⟨b, hb⟩ := List.exists_mem_of_ne_nil _ (String.utf8EncodeChar_ne_nil (c := c))
  exact ascii_of_mem_utf8EncodeChar hb (small b (List.mem_flatMap.mpr ⟨c, hc, hb⟩))

theorem asciiByte_inj {c' : Char} (ascii : c.toNat < 128) (ascii' : c'.toNat < 128)
    (h : asciiByte c = asciiByte c') : c = c' := by
  have same := congrArg UInt8.toNat h
  rw [asciiByte, asciiByte, UInt8.toNat_ofNat', UInt8.toNat_ofNat', Nat.mod_eq_of_lt (by omega),
    Nat.mod_eq_of_lt (by omega)] at same
  exact Char.toNat_inj.mp same

/-- A word of ASCII stands in front of the bytes exactly if it stands in front of the text. -/
theorem prefix_utf8_iff (ascii : ∀ c ∈ word, c.toNat < 128) :
    word.map asciiByte <+: chars.flatMap String.utf8EncodeChar ↔ word <+: chars := by
  induction word generalizing chars with
  | nil => simp
  | cons w word ih =>
    obtain ⟨here, later⟩ := List.forall_mem_cons.mp ascii
    cases chars with
    | nil => simp
    | cons c chars =>
      by_cases asciiHere : c.toNat < 128
      · rw [List.flatMap_cons, utf8EncodeChar_ascii asciiHere, List.singleton_append, List.map_cons,
          List.cons_prefix_cons, List.cons_prefix_cons, ih later]
        exact and_congr_left fun _ => ⟨asciiByte_inj here asciiHere, congrArg asciiByte⟩
      · obtain ⟨b, bytes, hbytes⟩ := List.exists_cons_of_ne_nil (String.utf8EncodeChar_ne_nil (c := c))
        have beyond : asciiByte w ≠ b := by
          rintro rfl
          refine asciiHere (ascii_of_mem_utf8EncodeChar (hbytes ▸ List.mem_cons_self) ?_)
          rw [asciiByte, UInt8.toNat_ofNat']
          omega
        have other : w ≠ c := fun same => asciiHere (same ▸ here)
        rw [List.flatMap_cons, hbytes, List.cons_append, List.map_cons, List.cons_prefix_cons,
          List.cons_prefix_cons]
        simp [beyond, other]

theorem unmarked_eq (bytes : Bytes) :
    unmarked bytes =
      if [48, 120] <+: bytes ∨ [48, 88] <+: bytes then bytes.drop 2 else bytes := by
  unfold unmarked
  split
  · exact (if_pos (.inl (List.prefix_append [48, 120] _))).symm
  · exact (if_pos (.inr (List.prefix_append [48, 88] _))).symm
  · next small capital =>
    refine (if_neg ?_).symm
    rintro (⟨rest, rfl⟩ | ⟨rest, rfl⟩)
    · exact small rest rfl
    · exact capital rest rfl

/-- A mark is taken off the bytes exactly as it is taken off the text. -/
theorem unmarked_utf8 (text : String) : unmarked (utf8 text) = bytesBehindMark text := by
  have asciiSmall : ∀ c ∈ ['0', 'x'], c.toNat < 128 :=
    List.forall_mem_cons.mpr ⟨by decide, List.forall_mem_singleton.mpr (by decide)⟩
  have asciiCapital : ∀ c ∈ ['0', 'X'], c.toNat < 128 :=
    List.forall_mem_cons.mpr ⟨by decide, List.forall_mem_singleton.mpr (by decide)⟩
  have same : [48, 120] <+: text.toList.flatMap String.utf8EncodeChar ∨
      [48, 88] <+: text.toList.flatMap String.utf8EncodeChar ↔
        ['0', 'x'] <+: text.toList ∨ ['0', 'X'] <+: text.toList :=
    or_congr (prefix_utf8_iff asciiSmall) (prefix_utf8_iff asciiCapital)
  rw [unmarked_eq, bytesBehindMark, behindMark, utf8_eq_flatMap, utf8_eq_flatMap, String.toList_ofList]
  by_cases marked : ['0', 'x'] <+: text.toList ∨ ['0', 'X'] <+: text.toList
  · rw [if_pos (same.mpr marked), if_pos marked]
    obtain ⟨rest, htext⟩ | ⟨rest, htext⟩ := marked <;> rw [← htext] <;> rfl
  · rw [if_neg (mt same.mp marked), if_neg marked]

theorem lower_of_decode : ∀ {offset : Nat} {chars : List Char} {bytes : Bytes},
    (∀ c ∈ chars, c.toNat < 128) → decode offset (chars.map asciiByte) = .ok bytes →
    chars.map Char.toLower = encode bytes
  | _, [], bytes, _, h => by
    cases h
    rfl
  | _, [_], _, _, h => nomatch h
  | offset, high :: low :: rest, bytes, ascii, h => by
    obtain ⟨asciiHigh, others⟩ := List.forall_mem_cons.mp ascii
    obtain ⟨asciiLow, asciiRest⟩ := List.forall_mem_cons.mp others
    rw [List.map_cons, List.map_cons, decode_cons_cons] at h
    split at h
    · next hv lv hhigh hlow =>
      obtain ⟨highLt, highLower⟩ := toLower_of_value? asciiHigh hhigh
      obtain ⟨lowLt, lowLower⟩ := toLower_of_value? asciiLow hlow
      obtain ⟨bytes, hrest, rfl⟩ := map_eq_ok.mp h
      obtain ⟨upper, lower⟩ := halves_of_lt highLt lowLt
      rw [encode_cons, upper, lower, List.map_cons, List.map_cons, highLower, lowLower,
        lower_of_decode asciiRest hrest]
    · cases h
    · cases h

/-- Digits are read as the bytes that they spell, and nothing else is read. -/
theorem decode_utf8_eq_ok_iff (even : (utf8 (String.ofList chars)).length % 2 = 0) :
    decode 0 (utf8 (String.ofList chars)) = .ok bytes ↔
      chars.map Char.toLower = smallDigits bytes := by
  rw [← encode_eq_smallDigits]
  constructor
  · intro h
    have digits := digits_of_decode even h
    have small : ∀ b ∈ digitBytes, b.toNat < 128 := by decide +kernel
    have ascii : ∀ c ∈ chars, c.toNat < 128 := ascii_of_utf8 fun b hb => small b (digits b (by
      rwa [utf8_eq_flatMap, String.toList_ofList]))
    rw [utf8_ofList ascii] at h
    exact lower_of_decode ascii h
  · intro lower
    rw [utf8_ofList (ascii_of_lower lower)]
    exact decode_of_lower 0 lower

/-! ### Digests and faults -/

theorem ofDigits_eq_ok_iff : Digest.ofDigits text = .ok d ↔
    text.length = 64 ∧ decode 0 text = .ok d.bytes := by
  refine ⟨fun h => ?_, fun h => ofDigits_of_decode h.1 h.2⟩
  rw [Digest.ofDigits] at h
  split at h
  · cases h
  split at h
  · cases h
  · next whole =>
    split at h
    · next bytes read =>
      cases h
      exact ⟨Decidable.not_not.mp whole, read⟩
    · cases h

theorem ofDigits_eq_oddLength_iff :
    Digest.ofDigits text = .error .oddLength ↔ text.length % 2 = 1 := by
  rw [Digest.ofDigits]
  split
  · next odd => exact ⟨fun _ => odd, fun _ => rfl⟩
  · next even =>
    refine ⟨fun h => ?_, fun odd => absurd odd even⟩
    split at h
    · cases h
    · split at h <;> cases h

theorem ofDigits_eq_wrongLength_iff : Digest.ofDigits text = .error .wrongLength ↔
    text.length % 2 = 0 ∧ text.length ≠ 64 := by
  rw [Digest.ofDigits]
  split
  · next odd =>
    refine ⟨fun h => ?_, fun h => by omega⟩
    cases h
  · next even =>
    split
    · next wrong => exact ⟨fun _ => ⟨by omega, wrong⟩, fun _ => rfl⟩
    · next whole =>
      refine ⟨fun h => ?_, fun h => absurd h.2 whole⟩
      split at h <;> cases h

theorem ofDigits_eq_notADigit_iff : Digest.ofDigits text = .error (.notADigit byte position) ↔
    text.length = 64 ∧ FirstNoDigit text byte position := by
  by_cases whole : text.length = 64
  · have even : text.length % 2 = 0 := by omega
    rw [← decode_eq_error_iff even, Digest.ofDigits, if_neg (by omega), dif_neg (by omega)]
    split
    · next bytes read => simp [read]
    · next place found failed => simp [failed, whole, and_comm]
  · refine ⟨fun h => ?_, fun h => absurd h.1 whole⟩
    rw [Digest.ofDigits, dif_pos whole] at h
    split at h <;> cases h

theorem toHex_toList (d : Digest) : d.toHex.toList = ['0', 'x'] ++ smallDigits d.bytes := by
  rw [Digest.toHex, String.toList_ofList, encode_eq_smallDigits]
  rfl

theorem ofHex_eq_ok_iff {text : String} : Digest.ofHex text = .ok d ↔
    (behindMark text.toList).length = 64 ∧
      (behindMark text.toList).map Char.toLower = smallDigits d.bytes := by
  have read : Digest.ofHex text = Digest.ofDigits (bytesBehindMark text) :=
    congrArg Digest.ofDigits (unmarked_utf8 text)
  rw [read, ofDigits_eq_ok_iff]
  have even (whole : (bytesBehindMark text).length = 64) :
      (utf8 (String.ofList (behindMark text.toList))).length % 2 = 0 := congrArg (· % 2) whole
  constructor
  · rintro ⟨whole, h⟩
    have lower := (decode_utf8_eq_ok_iff (even whole)).mp h
    refine ⟨?_, lower⟩
    rw [← List.length_map Char.toLower, lower, ← encode_eq_smallDigits, length_encode, d.length_eq]
  · rintro ⟨whole, lower⟩
    have ascii := ascii_of_lower (lower.trans (encode_eq_smallDigits d.bytes).symm)
    have length : (bytesBehindMark text).length = 64 := by
      rw [bytesBehindMark, utf8_ofList ascii, List.length_map, whole]
    exact ⟨length, (decode_utf8_eq_ok_iff (even length)).mpr lower⟩

/-- A text is read as a digest exactly if behind its mark stand the digits of the digest in either
case, which the digest's own text gives in small letters. Any other text has the first fault of
three. The own text of a digest is read as this digest, also without the mark. -/
theorem ofHex_reads_format (text : String) (d : Digest) :
    (Digest.ofHex text = .ok d ↔
        (behindMark text.toList).length = 64 ∧
          (behindMark text.toList).map Char.toLower = smallDigits d.bytes) ∧
      (Digest.ofHex text = .ok d →
        d.toHex = "0x" ++ String.ofList ((behindMark text.toList).map Char.toLower)) ∧
      (Digest.ofHex text = .error .oddLength ↔ (bytesBehindMark text).length % 2 = 1) ∧
      (Digest.ofHex text = .error .wrongLength ↔
        (bytesBehindMark text).length % 2 = 0 ∧ (bytesBehindMark text).length ≠ 64) ∧
      (∀ byte position, Digest.ofHex text = .error (.notADigit byte position) ↔
        (bytesBehindMark text).length = 64 ∧
          FirstNoDigit (bytesBehindMark text) byte position) ∧
      Digest.ofHex d.toHex = .ok d ∧
      Digest.ofHex (String.ofList (smallDigits d.bytes)) = .ok d := by
  have read : Digest.ofHex text = Digest.ofDigits (bytesBehindMark text) :=
    congrArg Digest.ofDigits (unmarked_utf8 text)
  refine ⟨ofHex_eq_ok_iff, fun h => ?_, ?_, ?_, fun byte position => ?_, ofHex_toHex d, ?_⟩
  · rw [← String.toList_inj, toHex_toList, String.toList_append, (ofHex_eq_ok_iff.mp h).2,
      show "0x".toList = ['0', 'x'] from rfl, String.toList_ofList]
  · rw [read, ofDigits_eq_oddLength_iff]
  · rw [read, ofDigits_eq_wrongLength_iff]
  · rw [read, ofDigits_eq_notADigit_iff]
  · refine ofHex_of_isSpelling ⟨[], encode d.bytes, ?_, by simp, toLower_encode d.bytes⟩
    rw [String.toList_ofList, encode_eq_smallDigits]
    rfl

/-- Digits in both cases behind a capital mark. -/
def mixedText : String := String.ofList ('0' :: 'X' :: (List.replicate 32 ['A', 'b']).flatten)

/-- The right number of bytes, of which the last two are one letter. -/
def accentedText : String := String.ofList ('0' :: 'x' :: (List.replicate 62 '7' ++ ['é']))

theorem mixedText_read :
    Digest.ofHex mixedText = .ok (.ofByte 0xAB) ∧
      (Digest.ofByte 0xAB).toHex =
        "0x" ++ String.ofList ((behindMark mixedText.toList).map Char.toLower) ∧
      Digest.ofHex accentedText = .error (.notADigit 0xC3 62) := by
  have read : Digest.ofHex mixedText = .ok (.ofByte 0xAB) :=
    (ofHex_reads_format mixedText (.ofByte 0xAB)).1.mpr (by decide +kernel)
  have length : (bytesBehindMark accentedText).length = 64 := by decide +kernel
  have first : FirstNoDigit (bytesBehindMark accentedText) 0xC3 62 :=
    ⟨List.replicate 62 55, [0xA9], by decide +kernel, by decide, by decide +kernel,
      by decide +kernel⟩
  exact ⟨read, (ofHex_reads_format mixedText (.ofByte 0xAB)).2.1 read,
    ((ofHex_reads_format accentedText .zero).2.2.2.2.1 0xC3 62).mpr ⟨length, first⟩⟩

end HashedTree.DigestFormat
