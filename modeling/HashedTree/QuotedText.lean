import HashedTree.InvisibleCharacters
import HashedTree.Utf8Text

/-! # Quoted texts, paths and characters for messages

Inside the quotes, the quote itself and the backslash are escaped, and every character without a
visible form is written by its short escape or its code point. Bytes that are no text are written
one by one.
-/
namespace HashedTree.QuotedText
open ByteBlocks Utf8Text

def codeDigits (c : Char) : List Char := Nat.toDigits 16 c.toNat

def escaped (quote c : Char) : List Char :=
  if c = quote ∨ c = '\\' then ['\\', c]
  else if c = Char.ofNat 0 then ['\\', '0']
  else if c = '\t' then ['\\', 't']
  else if c = '\n' then ['\\', 'n']
  else if c = '\r' then ['\\', 'r']
  else if InvisibleCharacters.isPlain c then [c]
  else ['\\', 'u', '\x7b'] ++ codeDigits c ++ ['\x7d']

def upperDigit (n : UInt8) : Char :=
  if n < 10 then Char.ofNat (48 + n.toNat) else Char.ofNat (55 + n.toNat)

/-- A byte that is no text: its two uppercase digits. -/
def escapedByte (b : UInt8) : List Char :=
  ['\\', 'x', upperDigit (b / 16), upperDigit (b % 16)]

def quoted (text : String) : String :=
  String.ofList ('"' :: (text.toList.flatMap (escaped '"') ++ ['"']))

def quotedPath (path : Bytes) : String :=
  let inner := (pieces path).flatMap fun
    | .character c => escaped '"' c
    | .illFormed bytes => bytes.flatMap escapedByte
  String.ofList ('"' :: (inner ++ ['"']))

def quotedChar (c : Char) : String := String.ofList ('\'' :: (escaped '\'' c ++ ['\'']))

end HashedTree.QuotedText
