import HashedTree.AsciiCharacters

/-! # Doubles nearest to written decimals -/
namespace HashedTree.DecimalReading
open AsciiCharacters

def natOf (digits : List Char) : Nat := digits.foldl (fun n c => n * 10 + (c.toNat - 48)) 0

/-- The double nearest to the number spelled by the digits, times a power of ten. Far beyond the
range of doubles, the power is not computed. -/
def nearest (digits : List Char) (exponent : Int) : Float :=
  let n := natOf digits
  let magnitude : Int := (Nat.toDigits 10 n).length + exponent
  if n = 0 then 0.0
  else if 400 < magnitude then 1.0 / 0.0
  else if magnitude < -400 then 0.0
  else if exponent < 0 then Float.ofScientific n true (-exponent).toNat
  else Float.ofScientific n false exponent.toNat

def integer? (text : List Char) : Option Int :=
  let (negative, digits) : Bool × List Char := match text with
    | '-' :: digits => (true, digits)
    | '+' :: digits => (false, digits)
    | digits => (false, digits)
  if digits.isEmpty ∨ !digits.all isDigit then none
  else some (if negative then -(natOf digits : Int) else natOf digits)

def wordBound : Int := 9223372036854775808

def fitsWord (n : Int) : Bool := decide (-wordBound ≤ n ∧ n < wordBound)

def word? (text : List Char) : Option Int := (integer? text).filter fitsWord

/-- An unsigned decimal: digits on at least one side of the point, and perhaps an exponent. -/
def unsigned? (text : List Char) : Option Float :=
  let whole := text.takeWhile isDigit
  let behind := text.dropWhile isDigit
  let (fraction, behind) : List Char × List Char := match behind with
    | '.' :: rest => (rest.takeWhile isDigit, rest.dropWhile isDigit)
    | rest => ([], rest)
  if whole.isEmpty ∧ fraction.isEmpty then none
  else
    let exponent : Option Int := match behind with
      | [] => some 0
      | 'e' :: rest | 'E' :: rest => integer? rest
      | _ => none
    exponent.map fun e => nearest (whole ++ fraction) (e - fraction.length)

def float? (text : List Char) : Option Float :=
  let (negative, body) : Bool × List Char := match text with
    | '-' :: body => (true, body)
    | '+' :: body => (false, body)
    | body => (false, body)
  let word := String.ofList (body.map lower)
  let value := if word = "inf" ∨ word = "infinity" then some (1.0 / 0.0)
    else if word = "nan" then some (0.0 / 0.0)
    else unsigned? body
  value.map fun x => if negative then -x else x

end HashedTree.DecimalReading
