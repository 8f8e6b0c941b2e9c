import HashedTree.DecimalReading

/-! # Keys that lead into tables and arrays

A path is a name, followed by names behind dots and by numbers in brackets.
-/
namespace HashedTree

/-- One step of a path: to a member of a table or to an element of an array. -/
inductive KeyStep where
  | member (name : String)
  | element (index : Int)
  deriving DecidableEq, Repr

namespace KeyPath
open AsciiCharacters

def isNameChar (c : Char) : Bool :=
  isDigit c || isLetter c || c = ' ' || c = '_' || c = '-'

private def isBlank (c : Char) : Bool := c = ' ' || c = '\t'

private def index? (text : List Char) : Option Int :=
  let inner := ((text.dropWhile isBlank).reverse.dropWhile isBlank).reverse
  if inner.head? = some '+' then none else DecimalReading.word? inner

/-- What is being read: a name or a number, of which the characters so far are given backwards, or
nothing behind a number. -/
inductive Mode where
  | name (done : List Char)
  | number (done : List Char)
  | behindNumber

def stepsFrom : Mode → List Char → Option (List KeyStep)
  | .name [], [] | .number _, [] => none
  | .name done, [] => some [.member (String.ofList done.reverse)]
  | .behindNumber, [] => some []
  | .name done, c :: rest =>
    if isNameChar c then stepsFrom (.name (c :: done)) rest
    else if done.isEmpty then none
    else if c = '.' then
      (stepsFrom (.name []) rest).map (.member (String.ofList done.reverse) :: ·)
    else if c = '[' then
      (stepsFrom (.number []) rest).map (.member (String.ofList done.reverse) :: ·)
    else none
  | .number done, c :: rest =>
    if c = ']' then
      (index? done.reverse).bind fun n => (stepsFrom .behindNumber rest).map (.element n :: ·)
    else stepsFrom (.number (c :: done)) rest
  | .behindNumber, c :: rest =>
    if c = '.' then stepsFrom (.name []) rest
    else if c = '[' then stepsFrom (.number []) rest
    else none

/-- The path that a key spells; any other key is a name as a whole. -/
def ofKey (key : String) : List KeyStep :=
  (stepsFrom (.name []) key.toList).getD [.member key]

end KeyPath
end HashedTree
