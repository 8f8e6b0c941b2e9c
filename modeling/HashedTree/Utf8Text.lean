import HashedTree.ByteBlocks

/-! # Text and its UTF-8 bytes

Besides the exact conversions, `pieces` cuts any byte string into characters and ill-formed
stretches. A stretch is the longest beginning of a character found there, or a single byte.
-/
namespace HashedTree.Utf8Text
open ByteBlocks

def utf8 (text : String) : Bytes := text.toUTF8.data.toList

def ofUtf8? (bytes : Bytes) : Option String := String.fromUTF8? ⟨bytes.toArray⟩

@[simp] theorem ofUtf8?_utf8 (text : String) : ofUtf8? (utf8 text) = some text := by
  simp [ofUtf8?, utf8, String.fromUTF8?, String.fromUTF8, text.isValidUTF8]

theorem utf8_of_ofUtf8? {bytes : Bytes} {text : String} (h : ofUtf8? bytes = some text) :
    utf8 text = bytes := by
  simp only [ofUtf8?, String.fromUTF8?] at h
  split at h
  · simp only [Option.some.injEq] at h
    simp [← h, utf8, String.fromUTF8]
  · simp at h

theorem utf8_injective {s t : String} (h : utf8 s = utf8 t) : s = t := by
  have := ofUtf8?_utf8 s
  rw [h, ofUtf8?_utf8] at this
  exact (Option.some.inj this).symm

theorem utf8_eq_flatMap (text : String) :
    utf8 text = text.toList.flatMap String.utf8EncodeChar := by
  rw [← String.ofList_toList (s := text), utf8, String.toUTF8_eq_toByteArray,
    String.toByteArray_ofList, String.ofList_toList]
  simp only [List.utf8Encode, List.data_toByteArray]

inductive Piece where
  | character (c : Char)
  | illFormed (bytes : Bytes)
  deriving DecidableEq

/-- The beginning of a character: its bytes, the number they spell so far, how many bytes are
missing, and the bounds of the next one. -/
structure Opening where
  bytes : Bytes
  code : Nat
  missing : Nat
  low : UInt8
  high : UInt8

def opening (b : UInt8) : Piece ⊕ Opening :=
  if b < 0x80 then .inl (.character (Char.ofNat b.toNat))
  else if b < 0xC2 then .inl (.illFormed [b])
  else if b < 0xE0 then .inr ⟨[b], b.toNat - 0xC0, 1, 0x80, 0xBF⟩
  else if b < 0xF0 then
    .inr ⟨[b], b.toNat - 0xE0, 2, if b = 0xE0 then 0xA0 else 0x80, if b = 0xED then 0x9F else 0xBF⟩
  else if b < 0xF5 then
    .inr ⟨[b], b.toNat - 0xF0, 3, if b = 0xF0 then 0x90 else 0x80, if b = 0xF4 then 0x8F else 0xBF⟩
  else .inl (.illFormed [b])

def piecesFrom : Option Opening → Bytes → List Piece
  | none, [] => []
  | some o, [] => [.illFormed o.bytes]
  | none, b :: rest =>
    match opening b with
    | .inl piece => piece :: piecesFrom none rest
    | .inr o => piecesFrom (some o) rest
  | some o, b :: rest =>
    if o.low ≤ b ∧ b ≤ o.high then
      let code := o.code * 64 + (b.toNat - 0x80)
      if o.missing = 1 then .character (Char.ofNat code) :: piecesFrom none rest
      else piecesFrom (some ⟨o.bytes ++ [b], code, o.missing - 1, 0x80, 0xBF⟩) rest
    else
      .illFormed o.bytes ::
        match opening b with
        | .inl piece => piece :: piecesFrom none rest
        | .inr o' => piecesFrom (some o') rest

def pieces (bytes : Bytes) : List Piece := piecesFrom none bytes

def lossy (bytes : Bytes) : String :=
  String.ofList <| (pieces bytes).map fun
    | .character c => c
    | .illFormed _ => Char.ofNat 0xFFFD

end HashedTree.Utf8Text
