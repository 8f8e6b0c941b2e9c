import HashedTree.Digest
import HashedTree.Utf8Text

/-!
# A digest is read back from its text

The text of a digest is plain ASCII: the mark and two digits for each byte. Taking off the mark and
reading the digits two by two gives the bytes again.
-/
namespace HashedTree.DigestText
open ByteBlocks HexText Utf8Text

/-- A character of ASCII as a byte. -/
def asciiByte (c : Char) : UInt8 := UInt8.ofNat c.toNat

theorem utf8EncodeChar_ascii {c : Char} (h : c.toNat < 128) :
    String.utf8EncodeChar c = [asciiByte c] := by
  have hsize : c.utf8Size = 1 := by
    rw [Char.utf8Size_eq_one_iff, UInt32.le_iff_toNat_le]
    exact Nat.le_of_lt_succ h
  rw [String.utf8EncodeChar_eq_singleton hsize]
  rfl

/-- A text of ASCII characters has one byte for each of them. -/
theorem utf8_ofList {text : List Char} (ascii : ∀ c ∈ text, c.toNat < 128) :
    utf8 (String.ofList text) = text.map asciiByte := by
  rw [utf8_eq_flatMap, String.toList_ofList]
  induction text with
  | nil => rfl
  | cons c rest ih =>
    rw [List.forall_mem_cons] at ascii
    rw [List.flatMap_cons, utf8EncodeChar_ascii ascii.1, ih ascii.2, List.map_cons,
      List.singleton_append]

theorem value?_digit {n : UInt8} (h : n < 16) :
    (digit n).toNat < 128 ∧ value? (asciiByte (digit n)) = some n := by
  have all : ∀ n : Fin 16, (digit (UInt8.ofNat n)).toNat < 128 ∧
      value? (asciiByte (digit (UInt8.ofNat n))) = some (UInt8.ofNat n) := by decide
  simpa using all ⟨n.toNat, h⟩

theorem high_lt (b : UInt8) : b / 16 < 16 := by
  rw [UInt8.lt_iff_toNat_lt, UInt8.toNat_div]
  have := b.toNat_lt
  change b.toNat / 16 < 16
  omega

theorem low_lt (b : UInt8) : b % 16 < 16 := by
  rw [UInt8.lt_iff_toNat_lt, UInt8.toNat_mod]
  exact Nat.mod_lt _ (by decide)

theorem halves (b : UInt8) : b / 16 * 16 + b % 16 = b := by
  rw [← UInt8.toNat_inj, UInt8.toNat_add, UInt8.toNat_mul, UInt8.toNat_div, UInt8.toNat_mod]
  have := b.toNat_lt
  change (b.toNat / 16 * 16 % 256 + b.toNat % 16) % 256 = b.toNat
  omega

theorem encode_cons (b : UInt8) (rest : Bytes) :
    encode (b :: rest) = digit (b / 16) :: digit (b % 16) :: encode rest := rfl

theorem ascii_encode (bytes : Bytes) : ∀ c ∈ encode bytes, c.toNat < 128 := by
  induction bytes with
  | nil => simp [encode]
  | cons b rest ih =>
    rw [encode_cons, List.forall_mem_cons, List.forall_mem_cons]
    exact ⟨(value?_digit (high_lt b)).1, (value?_digit (low_lt b)).1, ih⟩

theorem length_encode (bytes : Bytes) : (encode bytes).length = 2 * bytes.length := by
  induction bytes with
  | nil => rfl
  | cons b rest ih =>
    rw [encode_cons, List.length_cons, List.length_cons, List.length_cons, ih]
    omega

theorem decode_encode (bytes : Bytes) (offset : Nat) :
    decode offset ((encode bytes).map asciiByte) = .ok bytes := by
  induction bytes generalizing offset with
  | nil => rfl
  | cons b rest ih =>
    rw [encode_cons, List.map_cons, List.map_cons, decode, (value?_digit (high_lt b)).2,
      (value?_digit (low_lt b)).2]
    dsimp only
    rw [ih, halves]
    rfl

/-- Sixty-four digits that spell the bytes of a digest are read as this digest. -/
theorem ofDigits_of_decode {text : Bytes} {d : Digest} (hlength : text.length = 64)
    (hdecode : decode 0 text = .ok d.bytes) : Digest.ofDigits text = .ok d := by
  rw [Digest.ofDigits, if_neg (by omega), dif_neg (by omega)]
  split
  · next bytes hbytes =>
    obtain rfl : d.bytes = bytes := Except.ok.inj (hdecode.symm.trans hbytes)
    rfl
  · next hfault => cases hdecode.symm.trans hfault

/-- A digest is read back from its text. -/
theorem ofHex_toHex (d : Digest) : Digest.ofHex d.toHex = .ok d := by
  have ascii : ∀ c ∈ '0' :: 'x' :: encode d.bytes, c.toNat < 128 := by
    simpa using ascii_encode d.bytes
  have hlength : ((encode d.bytes).map asciiByte).length = 64 := by
    rw [List.length_map, length_encode, d.length_eq]
  have hmark : unmarked (('0' :: 'x' :: encode d.bytes).map asciiByte) =
      (encode d.bytes).map asciiByte := rfl
  change Digest.ofHexBytes (utf8 d.toHex) = _
  rw [Digest.ofHexBytes, Digest.toHex, utf8_ofList ascii, hmark]
  exact ofDigits_of_decode hlength (decode_encode d.bytes 0)

end HashedTree.DigestText
