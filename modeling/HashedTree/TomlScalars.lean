import HashedTree.DecimalReading

/-! # The scalars of configuration files: strings, numbers, truth values and dates

Every reader takes characters from the front of a text and returns the rest. Numbers and dates are
first delimited and then recognised as a whole.
-/
namespace HashedTree.TomlScalars
open AsciiCharacters DecimalReading

inductive Scalar where
  | string (value : String)
  | integer (value : Int)
  | real (value : Float)
  | boolean (value : Bool)
  | date (text : String)

def isBlank (c : Char) : Bool := c = ' ' || c = '\t'

/-- Everything but control characters; the tab is none of them here. -/
def isVisible (c : Char) : Bool := c = '\t' || (0x20 ≤ c.toNat && c.toNat ≠ 0x7F)

def skipBlanks (text : List Char) : List Char := text.dropWhile isBlank

private def spelled? (digits : List Char) : Option Char :=
  (digits.foldlM (fun n c => (hexValue? c).map (n * 16 + ·)) 0).bind fun n =>
    if n.isValidChar then some (Char.ofNat n) else none

private def shortEscape? (c : Char) : Option Char :=
  if c = '"' ∨ c = '\\' then some c
  else if c = 'b' then some (Char.ofNat 8)
  else if c = 'f' then some (Char.ofNat 12)
  else if c = 'n' then some '\n'
  else if c = 'r' then some '\r'
  else if c = 't' then some '\t'
  else none

abbrev Read (α : Type) := Option (α × List Char)

private def after (c : Char) (r : Read (List Char)) : Read (List Char) :=
  r.map fun (text, rest) => (c :: text, rest)

def basicString : List Char → Read (List Char)
  | [] => none
  | '"' :: rest => some ([], rest)
  | '\\' :: 'u' :: a :: b :: c :: d :: rest =>
    (spelled? [a, b, c, d]).bind fun x => after x (basicString rest)
  | '\\' :: 'U' :: a :: b :: c :: d :: e :: f :: g :: h :: rest =>
    (spelled? [a, b, c, d, e, f, g, h]).bind fun x => after x (basicString rest)
  | '\\' :: c :: rest => (shortEscape? c).bind fun x => after x (basicString rest)
  | c :: rest => if isVisible c ∧ c ≠ '\\' then after c (basicString rest) else none

def literalString : List Char → Read (List Char)
  | [] => none
  | '\'' :: rest => some ([], rest)
  | c :: rest => if isVisible c then after c (literalString rest) else none

private def endsLine (text : List Char) : Bool :=
  match skipBlanks text with
  | '\n' :: _ | '\r' :: '\n' :: _ => true
  | _ => false

/-- The rest of a string with escapes that may span lines. Behind a backslash at the end of a line,
everything up to the next visible character is left out; `trimming` tells whether this goes on. Up
to two quotes may stand before the three that end the string. -/
def longBasicString (trimming : Bool) : List Char → Read (List Char)
  | [] => none
  | '"' :: '"' :: '"' :: '"' :: '"' :: rest => some (['"', '"'], rest)
  | '"' :: '"' :: '"' :: '"' :: rest => some (['"'], rest)
  | '"' :: '"' :: '"' :: rest => some ([], rest)
  | '\\' :: 'u' :: a :: b :: c :: d :: rest =>
    (spelled? [a, b, c, d]).bind fun x => after x (longBasicString false rest)
  | '\\' :: 'U' :: a :: b :: c :: d :: e :: f :: g :: h :: rest =>
    (spelled? [a, b, c, d, e, f, g, h]).bind fun x => after x (longBasicString false rest)
  | '\\' :: c :: rest =>
    if endsLine (c :: rest) then longBasicString true (c :: rest)
    else (shortEscape? c).bind fun x => after x (longBasicString false rest)
  | '\r' :: '\n' :: rest =>
    if trimming then longBasicString true rest else after '\n' (longBasicString false rest)
  | c :: rest =>
    if trimming ∧ (isBlank c ∨ c = '\n') then longBasicString true rest
    else if (isVisible c ∧ c ≠ '\\') ∨ c = '\n' then after c (longBasicString false rest)
    else none

def longLiteralString : List Char → Read (List Char)
  | [] => none
  | '\'' :: '\'' :: '\'' :: '\'' :: '\'' :: rest => some (['\'', '\''], rest)
  | '\'' :: '\'' :: '\'' :: '\'' :: rest => some (['\''], rest)
  | '\'' :: '\'' :: '\'' :: rest => some ([], rest)
  | '\r' :: '\n' :: rest => after '\n' (longLiteralString rest)
  | c :: rest => if isVisible c ∨ c = '\n' then after c (longLiteralString rest) else none

private def skipLineEnd : List Char → List Char
  | '\n' :: rest | '\r' :: '\n' :: rest => rest
  | rest => rest

def groupedDigits? (valid : Char → Bool) : List Char → Option (List Char)
  | [] => none
  | [c] => if valid c then some [c] else none
  | c :: '_' :: rest => if valid c then (groupedDigits? valid rest).map (c :: ·) else none
  | c :: rest => if valid c then (groupedDigits? valid rest).map (c :: ·) else none

private def signed (text : List Char) : Bool × List Char :=
  match text with
  | '-' :: rest => (true, rest)
  | '+' :: rest => (false, rest)
  | rest => (false, rest)

private def wholeDigits? (text : List Char) : Option (List Char) :=
  (groupedDigits? isDigit text).filter fun digits => digits.length = 1 ∨ digits.head? ≠ some '0'

private def inWord (n : Int) : Option Scalar :=
  if fitsWord n then some (.integer n) else none

private def based? (base : Nat) (text : List Char) : Option Scalar :=
  let valid (c : Char) : Bool := (hexValue? c).any (· < base)
  (groupedDigits? valid text).bind fun digits =>
    inWord (digits.foldl (fun n c => n * base + (hexValue? c).getD 0) 0 : Nat)

private def integerOf? (text : List Char) : Option Scalar :=
  let (negative, body) := signed text
  (wholeDigits? body).bind fun digits =>
    inWord (if negative then -(natOf digits : Int) else natOf digits)

private def realOf? (text : List Char) : Option Scalar :=
  let (negative, body) := signed text
  let finish (x : Float) : Option Scalar := some (.real (if negative then -x else x))
  if body = ['i', 'n', 'f'] then finish (1.0 / 0.0)
  else if body = ['n', 'a', 'n'] then finish (0.0 / 0.0)
  else
    let isMark (c : Char) : Bool := c = 'e' || c = 'E'
    let mantissa := body.takeWhile (!isMark ·)
    let power := (body.dropWhile (!isMark ·)).drop 1
    let whole := mantissa.takeWhile (· ≠ '.')
    let part := (mantissa.dropWhile (· ≠ '.')).drop 1
    let hasPart := mantissa.contains '.'
    let hasPower := body.any isMark
    if !hasPart ∧ !hasPower then none
    else do
      let whole ← wholeDigits? whole
      let part ← if hasPart then groupedDigits? isDigit part else some []
      let (negativePower, powerDigits) := signed power
      let powerDigits ← if hasPower then groupedDigits? isDigit powerDigits else some ['0']
      let e : Int := if negativePower then -(natOf powerDigits : Int) else natOf powerDigits
      let x := nearest (whole ++ part) (e - part.length)
      if x.isInf then none else finish x

private def number? (a b : Char) : Option Nat :=
  if isDigit a ∧ isDigit b then some (natOf [a, b]) else none

private def daysOf (year month : Nat) : Nat :=
  if month = 2 then if year % 4 = 0 ∧ (year % 100 ≠ 0 ∨ year % 400 = 0) then 29 else 28
  else if month = 4 ∨ month = 6 ∨ month = 9 ∨ month = 11 then 30
  else 31

private def day? : List Char → Option (List Char × List Char)
  | a :: b :: c :: d :: '-' :: e :: f :: '-' :: g :: h :: rest => do
    let century ← number? a b
    let year ← number? c d
    let month ← number? e f
    let day ← number? g h
    if 1 ≤ month ∧ month ≤ 12 ∧ 1 ≤ day ∧ day ≤ daysOf (century * 100 + year) month then
      some ([a, b, c, d, '-', e, f, '-', g, h], rest)
    else none
  | _ => none

/-- A time of day, and what stands behind it. Of its fraction nine digits count, and zeros at the
end are not written. -/
private def time? : List Char → Option (List Char × List Char)
  | a :: b :: ':' :: c :: d :: ':' :: e :: f :: rest => do
    let hour ← number? a b
    let minute ← number? c d
    let second ← number? e f
    let written := [a, b, ':', c, d, ':', e, f]
    if 24 ≤ hour ∨ 60 ≤ minute ∨ 61 ≤ second then none
    else match rest with
      | '.' :: digits =>
        let fraction := digits.takeWhile isDigit
        if fraction.isEmpty then none
        else
          let kept := ((fraction.take 9).reverse.dropWhile (· = '0')).reverse
          some (if kept.isEmpty then written else written ++ '.' :: kept, digits.dropWhile isDigit)
      | rest => some (written, rest)
  | _ => none

private def offset? : List Char → Option (List Char)
  | [] => some []
  | ['Z'] | ['z'] => some ['Z']
  | [s, a, b, ':', c, d] => do
    let hour ← number? a b
    let minute ← number? c d
    if (s = '+' ∨ s = '-') ∧ hour < 24 ∧ minute < 60 then
      some ((if hour = 0 ∧ minute = 0 then '+' else s) :: [a, b, ':', c, d])
    else none
  | _ => none

private def date? (text : List Char) : Option Scalar :=
  let written := match day? text with
    | some (day, []) => some day
    | some (day, mark :: rest) =>
      if mark = 'T' ∨ mark = 't' ∨ mark = ' ' then do
        let (time, rest) ← time? rest
        let offset ← offset? rest
        some (day ++ 'T' :: (time ++ offset))
      else none
    | none =>
      match time? text with
      | some (time, []) => some time
      | _ => none
  written.map fun w => .date (String.ofList w)

def plain? (text : List Char) : Option Scalar :=
  match text with
  | ['t', 'r', 'u', 'e'] => some (.boolean true)
  | ['f', 'a', 'l', 's', 'e'] => some (.boolean false)
  | '0' :: 'x' :: digits => based? 16 digits
  | '0' :: 'o' :: digits => based? 8 digits
  | '0' :: 'b' :: digits => based? 2 digits
  | text => ((date? text).or (integerOf? text)).or (realOf? text)

private def isPlainChar (c : Char) : Bool :=
  isDigit c || isLetter c || c = '_' || c = '+' || c = '-' || c = '.' || c = ':'

/-- The characters of a scalar that is no string. A space may separate a date from its time. -/
private def plainText (text : List Char) : List Char × List Char :=
  let first := text.takeWhile isPlainChar
  let rest := text.dropWhile isPlainChar
  match (day? first).map Prod.snd, rest with
  | some [], ' ' :: digit :: more =>
    if isDigit digit then
      (first ++ ' ' :: (digit :: more).takeWhile isPlainChar, (digit :: more).dropWhile isPlainChar)
    else (first, rest)
  | _, _ => (first, rest)

private def asString (r : Read (List Char)) : Read Scalar :=
  r.map fun (text, rest) => (.string (String.ofList text), rest)

def scalar? (text : List Char) : Read Scalar :=
  match text with
  | '"' :: '"' :: '"' :: rest => asString (longBasicString false (skipLineEnd rest))
  | '"' :: rest => asString (basicString rest)
  | '\'' :: '\'' :: '\'' :: rest => asString (longLiteralString (skipLineEnd rest))
  | '\'' :: rest => asString (literalString rest)
  | text =>
    let (word, rest) := plainText text
    (plain? word).map (·, rest)

end HashedTree.TomlScalars
