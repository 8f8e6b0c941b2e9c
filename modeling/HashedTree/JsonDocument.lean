import HashedTree.ShortestDecimal

/-! # Documents and their text

A number without fraction and exponent that a word of 64 bits can hold, with or without sign, is an
integer; every other number is a double. Objects keep their members in order, and keep repeated
names. In a text, a string escapes nothing but the quote, the backslash and the control characters.
-/
namespace HashedTree

inductive Json where
  | null
  | boolean (value : Bool)
  | integer (value : Int)
  | real (value : Float)
  | string (value : String)
  | array (elements : List Json)
  | object (members : List (String × Json))

namespace Json

def hexDigit (n : Nat) : Char := if n < 10 then Char.ofNat (48 + n) else Char.ofNat (87 + n)

def escapedChar (c : Char) : List Char :=
  if c = '"' then ['\\', '"']
  else if c = '\\' then ['\\', '\\']
  else if 0x20 ≤ c.toNat then [c]
  else if c = '\n' then ['\\', 'n']
  else if c = '\r' then ['\\', 'r']
  else if c = '\t' then ['\\', 't']
  else if c.toNat = 8 then ['\\', 'b']
  else if c.toNat = 12 then ['\\', 'f']
  else ['\\', 'u', '0', '0', hexDigit (c.toNat / 16), hexDigit (c.toNat % 16)]

def stringText (text : String) : List Char := '"' :: (text.toList.flatMap escapedChar ++ ['"'])

/-- Where lines break: nowhere, or before every element, which is indented by two spaces a level. -/
inductive Layout where
  | compact
  | indented
  deriving DecidableEq, Repr

def lineBreak : Layout → Nat → List Char
  | .compact, _ => []
  | .indented, depth => '\n' :: List.replicate (2 * depth) ' '

def colon : Layout → List Char
  | .compact => [':']
  | .indented => [':', ' ']

def integerText : Int → List Char
  | .ofNat n => Nat.toDigits 10 n
  | .negSucc n => '-' :: Nat.toDigits 10 (n + 1)

mutual
def write (layout : Layout) (depth : Nat) : Json → List Char
  | .null => ['n', 'u', 'l', 'l']
  | .boolean true => ['t', 'r', 'u', 'e']
  | .boolean false => ['f', 'a', 'l', 's', 'e']
  | .integer value => integerText value
  | .real value => (ShortestDecimal.mixedText value).toList
  | .string value => stringText value
  | .array [] => ['[', ']']
  | .array (e :: es) =>
    '[' :: (lineBreak layout (depth + 1) ++ write layout (depth + 1) e ++
      (writeElements layout (depth + 1) es ++ (lineBreak layout depth ++ [']'])))
  | .object [] => ['\x7b', '\x7d']
  | .object ((name, value) :: ms) =>
    '\x7b' :: (lineBreak layout (depth + 1) ++ stringText name ++ colon layout ++
      write layout (depth + 1) value ++
      (writeMembers layout (depth + 1) ms ++ (lineBreak layout depth ++ ['\x7d'])))

def writeElements (layout : Layout) (depth : Nat) : List Json → List Char
  | [] => []
  | e :: es =>
    ',' :: (lineBreak layout depth ++ write layout depth e ++ writeElements layout depth es)

def writeMembers (layout : Layout) (depth : Nat) : List (String × Json) → List Char
  | [] => []
  | (name, value) :: ms =>
    ',' :: (lineBreak layout depth ++ stringText name ++ colon layout ++
      write layout depth value ++ writeMembers layout depth ms)
end

def text (layout : Layout) (document : Json) : List Char := write layout 0 document

end Json
end HashedTree
