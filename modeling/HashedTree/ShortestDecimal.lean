/-! # The shortest decimal that reads back as a given binary fraction

A double is `m * 2 ^ q`; the reals nearest to it form an interval around it, whose ends belong to
it exactly if `m` is even. Among the decimal grids of 1, 2, … 17 digits the first one with a point
in the interval gives the digits, and of two such points the nearer one.
-/
namespace HashedTree.ShortestDecimal

/-- A positive decimal: its digits stand behind the point, moved by `point` places. -/
structure Digits where
  digits : List Char
  point : Int

/-- A finite double without its sign. The gap below a power of two is half as wide as the one
above it; then `narrow` holds. -/
structure Magnitude where
  mantissa : Nat
  exponent : Int
  narrow : Bool

/-- `10 ^ e` for a non-negative `e`, and one otherwise. -/
private def tenTo (e : Int) : Nat := Nat.pow 10 e.toNat

/-- The least `k` with `v < 10 ^ k`, searched upwards from a guess. -/
private def decimalWidth (v : Magnitude) : Nat → Int → Int
  | 0, k => k
  | tries + 1, k =>
    let left := v.mantissa * Nat.pow 2 v.exponent.toNat * tenTo (-k)
    let right := tenTo k * Nat.pow 2 (-v.exponent).toNat
    if left < right then k else decimalWidth v tries (k + 1)

/-- The point of the grid of step `10 ^ e` that is nearest to the value, if it reads back. -/
private def gridPoint? (v : Magnitude) (e : Int) : Option Nat :=
  let s := v.exponent - 2
  let scale := Nat.pow 2 s.toNat * tenTo (-e)
  let unit := tenTo e * Nat.pow 2 (-s).toNat
  let value := 4 * v.mantissa * scale
  let low := (4 * v.mantissa - if v.narrow then 1 else 2) * scale
  let high := (4 * v.mantissa + 2) * scale
  let inside (x : Nat) : Bool :=
    if v.mantissa % 2 = 0 then low ≤ x && x ≤ high else low < x && x < high
  let below := value / unit
  let above := below + 1
  let nearBelow := value - below * unit
  let nearAbove := above * unit - value
  match inside (below * unit), inside (above * unit) with
  | true, true =>
    if nearBelow < nearAbove ∨ (nearBelow = nearAbove ∧ below % 2 = 0) then some below
    else some above
  | true, false => some below
  | false, true => some above
  | false, false => none

private def firstGrid (v : Magnitude) (width : Int) : Nat → Nat → Nat × Int
  | 0, _ => (0, 0)
  | grids + 1, count =>
    match gridPoint? v (width - count) with
    | some point => (point, width - count)
    | none => firstGrid v width grids (count + 1)

def shortest (v : Magnitude) : Digits :=
  let bits : Int := Nat.log2 v.mantissa + v.exponent
  let width := decimalWidth v 4 (bits * 30103 / 100000 - 1)
  let (point, e) := firstGrid v width 17 1
  let written := Nat.toDigits 10 point
  let trimmed := (written.reverse.dropWhile (· = '0')).reverse
  ⟨trimmed, written.length + e⟩

def magnitude (x : Float) : Magnitude :=
  let bits := x.toBits.toNat
  let fraction : Nat := bits % Nat.pow 2 52
  let field : Nat := bits / Nat.pow 2 52 % Nat.pow 2 11
  if field = 0 then ⟨fraction, -1074, false⟩
  else ⟨Nat.pow 2 52 + fraction, (field : Int) - 1075, fraction = 0 && decide (1 < field)⟩

def isNegative (x : Float) : Bool := Nat.pow 2 63 ≤ x.toBits.toNat

/-- The digits with the point among them; zeros fill the gap on either side. -/
def positional (d : Digits) : List Char :=
  if d.point ≤ 0 then '0' :: '.' :: (List.replicate (-d.point).toNat '0' ++ d.digits)
  else
    let whole := d.point.toNat
    if d.digits.length ≤ whole then d.digits ++ List.replicate (whole - d.digits.length) '0'
    else d.digits.take whole ++ '.' :: d.digits.drop whole

def scientific (d : Digits) : List Char :=
  let head := d.digits.take 1
  let tail := d.digits.drop 1
  head ++ (if tail.isEmpty then [] else '.' :: tail) ++ 'e' :: (toString (d.point - 1)).toList

private def signed (x : Float) (text : List Char) : String :=
  String.ofList (if isNegative x then '-' :: text else text)

/-- Always positional; a whole number has no point. -/
def plainText (x : Float) : String :=
  if x.isNaN then "NaN"
  else if x.isInf then signed x "inf".toList
  else if x == 0.0 then signed x ['0']
  else signed x (positional (shortest (magnitude x)))

/-- Positional from `1e-5` up to below `1e16`, where a whole number is written with `.0`; otherwise
with a power of ten. -/
def mixedText (x : Float) : String :=
  if x.isNaN then "NaN"
  else if x.isInf then signed x "inf".toList
  else if x == 0.0 then signed x "0.0".toList
  else
    let d := shortest (magnitude x)
    if -4 ≤ d.point ∧ d.point ≤ 16 then
      let text := positional d
      signed x (if text.contains '.' then text else text ++ ['.', '0'])
    else signed x (scientific d)

end HashedTree.ShortestDecimal
