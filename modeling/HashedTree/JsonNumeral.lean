import HashedTree.JsonDocument

/-! # The value of a numeral

A numeral is its sign, whole digits, fraction digits and exponent. Digits are gathered into a word
of 64 bits as long as they fit; whole digits beyond that count as a power of ten, and fraction
digits beyond that count for nothing. The word is then scaled in one rounding step, so that a
double need not be the nearest one to the numeral. A numeral beyond the range of doubles has no
value.
-/
namespace HashedTree

/-- A numeral as written. `fraction` and `exponent` are missing where their marks are. -/
structure JsonNumeral where
  negative : Bool
  whole : List Char
  fraction : Option (List Char)
  exponent : Option Int

namespace JsonNumeral

def digitValue (c : Char) : Nat := c.toNat - 48

/-- Adds digits to a word while they fit; the second part is the number of those left. -/
def gather (word : Nat) : List Char → Nat × Nat
  | [] => (word, 0)
  | c :: rest =>
    let next := word * 10 + digitValue c
    if next < Nat.pow 2 64 then gather next rest else (word, rest.length + 1)

/-- Divides by `10 ^ 308` while the exponent is below the least exact power. -/
private def shrink : Nat → Float → Int → Float × Int
  | 0, x, e => (x, e)
  | steps + 1, x, e => if e < -308 ∧ x != 0.0 then shrink steps (x / 1e308) (e + 308) else (x, e)

def scale (word : Nat) (e : Int) : Option Float :=
  let x := (UInt64.ofNat word).toFloat
  let power (n : Nat) : Float := Float.ofScientific 1 false n
  if 308 < e then if x == 0.0 then some x else none
  else if 0 ≤ e then
    let y := x * power e.toNat
    if y.isInf then none else some y
  else
    let (y, e) := shrink 4 x e
    if e < -308 then some y else some (y / power (-e).toNat)

def value? (n : JsonNumeral) : Option Json :=
  let (word, excess) := gather 0 n.whole
  let signed (x : Float) : Json := .real (if n.negative then -x else x)
  match n.fraction, n.exponent, excess with
  | none, none, 0 =>
    if !n.negative then some (.integer word)
    else if word = 0 ∨ Nat.pow 2 63 < word then some (signed (UInt64.ofNat word).toFloat)
    else some (.integer (-word))
  | _, _, _ =>
    let digits := n.fraction.getD []
    let (word, lost) := gather word digits
    let e : Int := excess - (digits.length - lost : Nat) + n.exponent.getD 0
    (scale word e).map signed

end JsonNumeral
end HashedTree
