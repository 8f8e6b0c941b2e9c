import HashedTree.ByteBlocks

/-! # Digests of 32 bytes and their hexadecimal text

A digest is written as `0x` and 64 lowercase digits; it is read with or without that mark and in
either case. The three faults of a text are found in this order: an odd number of bytes, a wrong
number of bytes, a byte that is no digit.
-/
namespace HashedTree
open ByteBlocks

/-- The address of a file, a directory or a symbolic link. -/
structure Digest where
  bytes : Bytes
  length_eq : bytes.length = 32
  deriving DecidableEq

namespace Digest

def ofByte (b : UInt8) : Digest := ⟨List.replicate 32 b, List.length_replicate⟩

def zero : Digest := ofByte 0

instance : Inhabited Digest := ⟨zero⟩

def isZero (d : Digest) : Bool := d = zero

instance : LE Digest := ⟨fun a b => a.bytes ≤ b.bytes⟩

instance (a b : Digest) : Decidable (a ≤ b) := inferInstanceAs (Decidable (a.bytes ≤ b.bytes))

theorem eq_of_bytes_eq {d e : Digest} (h : d.bytes = e.bytes) : d = e := by
  cases d
  cases e
  simp_all

/-- Two digests in a row can be told apart, since each has 32 bytes. -/
theorem eq_of_append_eq {d d' e e' : Digest} (h : d.bytes ++ e.bytes = d'.bytes ++ e'.bytes) :
    d = d' ∧ e = e' := by
  obtain ⟨hleft, hright⟩ := List.append_inj h (by rw [d.length_eq, d'.length_eq])
  exact ⟨eq_of_bytes_eq hleft, eq_of_bytes_eq hright⟩

end Digest

namespace HexText

def digit (n : UInt8) : Char :=
  if n < 10 then Char.ofNat (48 + n.toNat) else Char.ofNat (87 + n.toNat)

def value? (b : UInt8) : Option UInt8 :=
  if 48 ≤ b ∧ b ≤ 57 then some (b - 48)
  else if 97 ≤ b ∧ b ≤ 102 then some (b - 87)
  else if 65 ≤ b ∧ b ≤ 70 then some (b - 55)
  else none

def encode (bytes : Bytes) : List Char :=
  bytes.flatMap fun b => [digit (b / 16), digit (b % 16)]

/-- Reads digits two by two; the left side is the offset and the byte of the first that is none. -/
def decode : Nat → Bytes → Except (Nat × UInt8) Bytes
  | offset, high :: low :: rest =>
    match value? high, value? low with
    | some h, some l => (decode (offset + 2) rest).map ((h * 16 + l) :: ·)
    | none, _ => .error (offset, high)
    | some _, none => .error (offset + 1, low)
  | offset, [b] => .error (offset, b)
  | _, [] => .ok []

/-- The text without one leading `0x` or `0X`. -/
def unmarked : Bytes → Bytes
  | 48 :: 120 :: rest => rest
  | 48 :: 88 :: rest => rest
  | text => text

end HexText

/-- What is wrong with the hexadecimal text of a digest. Lengths and positions count bytes after
the mark. -/
inductive HexFault where
  | oddLength
  | wrongLength
  | notADigit (byte : UInt8) (position : Nat)
  deriving DecidableEq, Repr

namespace Digest
open HexText

/-- `0x` and 64 lowercase digits. -/
def toHex (d : Digest) : String := String.ofList ('0' :: 'x' :: encode d.bytes)

def inspect (d : Digest) : String := "Digest(" ++ d.toHex ++ ")"

private theorem length_of_decode : ∀ {offset : Nat} {text bytes : Bytes},
    decode offset text = .ok bytes → text.length = 2 * bytes.length
  | _, [], bytes, h => by
    simp only [decode, Except.ok.injEq] at h
    simp [← h]
  | _, [_], _, h => by simp [decode] at h
  | offset, high :: low :: rest, bytes, h => by
    cases hh : value? high with
    | none => simp [decode, hh] at h
    | some v =>
      cases hl : value? low with
      | none => simp [decode, hh, hl] at h
      | some w =>
        cases hr : decode (offset + 2) rest with
        | error e => simp [decode, hh, hl, hr, Except.map] at h
        | ok tail =>
          have hb : (v * 16 + w) :: tail = bytes := by
            simpa [decode, hh, hl, hr, Except.map] using h
          have := length_of_decode hr
          rw [← hb]
          simp only [List.length_cons]
          omega

def ofDigits (text : Bytes) : Except HexFault Digest :=
  if text.length % 2 = 1 then .error .oddLength
  else if wrong : text.length ≠ 64 then .error .wrongLength
  else match decoded : decode 0 text with
    | .ok bytes => .ok ⟨bytes, by have := length_of_decode decoded; omega⟩
    | .error (position, byte) => .error (.notADigit byte position)

def ofHexBytes (text : Bytes) : Except HexFault Digest := ofDigits (unmarked text)

def ofHex (text : String) : Except HexFault Digest := ofHexBytes text.toUTF8.data.toList

end Digest
end HashedTree
