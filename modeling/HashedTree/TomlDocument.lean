import HashedTree.NamedTable
import HashedTree.TomlScalars

/-! # Configuration files of sections, keys and values

A table is written at most once: under its own header, by dotted keys, or inline. A table that
only stands in front of a dot in a header may still get its own header.
-/
namespace HashedTree
open AsciiCharacters TomlScalars

/-- The value of a key. -/
inductive Toml where
  | scalar (value : Scalar)
  | array (elements : List Toml)
  | table (members : List (String × Toml))

namespace TomlDocument

/-- A part of a document under construction. An `implicit` table has no header of its own yet, and
a `dotted` one was made by dotted keys. Repeated sections stand with the last one first. -/
inductive Part where
  | value (v : Toml)
  | table (implicit dotted : Bool) (members : List (String × Part))
  | sections (parts : List Part)

def changeAt (dotted : Bool) (change : Part → Option Part) : List String → Part → Option Part
  | [], part => change part
  | key :: keys, .table implicit isDotted members =>
    match (NamedTable.find? key members).getD (.table true dotted []) with
    | .value _ => none
    | .table i d inner =>
      if dotted ∧ !i then none
      else
        (changeAt dotted change keys (.table i d inner)).map fun part =>
          .table implicit isDotted (NamedTable.put key part members)
    | .sections [] => none
    | .sections (last :: earlier) =>
      (changeAt dotted change keys last).map fun part =>
        .table implicit isDotted (NamedTable.put key (.sections (part :: earlier)) members)
  | _ :: _, .value _ | _ :: _, .sections _ => none

def setKey (underPath : Bool) (key : String) (v : Toml) : Part → Option Part
  | .table implicit dotted members =>
    if dotted ≠ underPath ∨ (NamedTable.find? key members).isSome then none
    else some (.table implicit dotted (NamedTable.put key (.value v) members))
  | .value _ | .sections _ => none

def wayAndKey (keys : List String) : List String × String := (keys.dropLast, keys.getLastD "")

def setValue (keys : List String) (v : Toml) (part : Part) : Option Part :=
  let (way, key) := wayAndKey keys
  changeAt true (setKey (!way.isEmpty) key v) way part

def openSection (keys : List String) (root : Part) : Option Part :=
  let (way, key) := wayAndKey keys
  let change : Part → Option Part
    | .table implicit dotted members =>
      match NamedTable.find? key members with
      | none => some (.table implicit dotted (NamedTable.put key (.table false false []) members))
      | some (.table true false inner) =>
        some (.table implicit dotted (NamedTable.put key (.table false false inner) members))
      | some _ => none
    | .value _ | .sections _ => none
  changeAt false change way root

def repeatSection (keys : List String) (root : Part) : Option Part :=
  let (way, key) := wayAndKey keys
  let fresh : Part := .table false false []
  let change : Part → Option Part
    | .table implicit dotted members =>
      match NamedTable.find? key members with
      | none => some (.table implicit dotted (NamedTable.put key (.sections [fresh]) members))
      | some (.sections parts) =>
        some (.table implicit dotted (NamedTable.put key (.sections (fresh :: parts)) members))
      | some _ => none
    | .value _ | .sections _ => none
  changeAt false change way root

mutual
def finished : Part → Toml
  | .value v => v
  | .table _ _ members => .table (finishedMembers members)
  | .sections parts => .array (finishedAll parts).reverse

def finishedMembers : List (String × Part) → List (String × Toml)
  | [] => []
  | (key, part) :: rest => (key, finished part) :: finishedMembers rest

def finishedAll : List Part → List Toml
  | [] => []
  | part :: rest => finished part :: finishedAll rest
end

/-! ### Keys and values -/

/-- How deep arrays and inline tables may be nested, and how many parts a key may have. -/
def depthLimit : Nat := 80

private def isBareChar (c : Char) : Bool :=
  isDigit c || isLetter c || c = '_' || c = '-'

private def simpleKey : List Char → Option (String × List Char)
  | '"' :: rest => (basicString rest).map fun (key, rest) => (String.ofList key, rest)
  | '\'' :: rest => (literalString rest).map fun (key, rest) => (String.ofList key, rest)
  | text =>
    let key := text.takeWhile isBareChar
    if key.isEmpty then none else some (String.ofList key, text.dropWhile isBareChar)

private def dottedKeyWithin : Nat → List Char → Option (List String × List Char)
  | 0, _ => none
  | parts + 1, text => do
    let (key, rest) ← simpleKey (skipBlanks text)
    match skipBlanks rest with
    | '.' :: rest =>
      let (keys, rest) ← dottedKeyWithin parts rest
      some (key :: keys, rest)
    | rest => some ([key], rest)

def dottedKey (text : List Char) : Option (List String × List Char) := dottedKeyWithin (depthLimit - 1) text

private def skipComment : List Char → Option (List Char)
  | '#' :: rest =>
    let behind := rest.dropWhile isVisible
    match behind with
    | [] | '\n' :: _ | '\r' :: '\n' :: _ => some behind
    | _ => none
  | rest => some rest

private def skipLines : Nat → List Char → Option (List Char)
  | 0, text => some text
  | lines + 1, text => do
    let rest ← skipComment (skipBlanks text)
    match rest with
    | '\n' :: rest | '\r' :: '\n' :: rest => skipLines lines rest
    | rest => some rest

private def skipAllLines (text : List Char) : Option (List Char) := skipLines text.length text

private def elements (value : List Char → Option (Toml × List Char)) : Nat → List Char → Option (List Toml × List Char)
  | 0, _ => none
  | count + 1, text => do
    match ← skipAllLines text with
    | ']' :: rest => some ([], rest)
    | text =>
      let (v, rest) ← value text
      match ← skipAllLines rest with
      | ',' :: rest =>
        let (vs, rest) ← elements value count rest
        some (v :: vs, rest)
      | ']' :: rest => some ([v], rest)
      | _ => none

private def keyAndValue (value : List Char → Option (Toml × List Char)) (text : List Char) :
    Option ((List String × Toml) × List Char) := do
  let (keys, rest) ← dottedKey text
  match rest with
  | '=' :: rest =>
    let (v, rest) ← value (skipBlanks rest)
    some ((keys, v), rest)
  | _ => none

private def members (value : List Char → Option (Toml × List Char)) : Nat → Part → List Char → Option (Part × List Char)
  | 0, _, _ => none
  | count + 1, part, text => do
    let ((keys, v), rest) ← keyAndValue value text
    let part ← setValue keys v part
    match skipBlanks rest with
    | ',' :: rest => members value count part rest
    | '\x7d' :: rest => some (part, rest)
    | _ => none

private def valueWithin : Nat → List Char → Option (Toml × List Char)
  | 0, text =>
    match text with
    | '[' :: _ | '\x7b' :: _ => none
    | text => (scalar? text).map fun (s, rest) => (.scalar s, rest)
  | depth + 1, text =>
    match text with
    | '[' :: rest =>
      (elements (valueWithin depth) (rest.length + 1) rest).map fun (vs, rest) => (.array vs, rest)
    | '\x7b' :: rest =>
      match skipBlanks rest with
      | '\x7d' :: rest => some (.table [], rest)
      | rest =>
        (members (valueWithin depth) (rest.length + 1) (.table false false []) rest).map
          fun (part, rest) => (finished part, rest)
    | text => (scalar? text).map fun (s, rest) => (.scalar s, rest)

def value? (text : List Char) : Option (Toml × List Char) := valueWithin (depthLimit - 1) text

/-! ### Lines -/

private def lineEnd (text : List Char) : Option (List Char) := do
  match ← skipComment (skipBlanks text) with
  | [] => some []
  | '\n' :: rest | '\r' :: '\n' :: rest => some rest
  | _ => none

/-- One line: its effect on the document, and the section that is open after it. -/
private def line (root : Part) (header : List String) (text : List Char) :
    Option ((Part × List String) × List Char) :=
  match skipBlanks text with
  | '[' :: '[' :: rest => do
    let (keys, rest) ← dottedKey rest
    match rest with
    | ']' :: ']' :: rest =>
      let root ← repeatSection keys root
      (lineEnd rest).map fun rest => ((root, keys), rest)
    | _ => none
  | '[' :: rest => do
    let (keys, rest) ← dottedKey rest
    match rest with
    | ']' :: rest =>
      let root ← openSection keys root
      (lineEnd rest).map fun rest => ((root, keys), rest)
    | _ => none
  | [] => some ((root, header), [])
  | c :: rest =>
    if c = '#' ∨ c = '\n' ∨ c = '\r' then (lineEnd (c :: rest)).map fun rest => ((root, header), rest)
    else do
      let ((keys, v), rest) ← keyAndValue value? (c :: rest)
      let root ← changeAt false (setValue keys v) header root
      (lineEnd rest).map fun rest => ((root, header), rest)

private def lines (root : Part) (header : List String) : Nat → List Char → Option Part
  | _, [] => some root
  | 0, _ => none
  | count + 1, text => do
    let ((root, header), rest) ← line root header text
    lines root header count rest

def parse? (text : String) : Option (List (String × Toml)) :=
  let characters := text.toList
  match lines (.table false false []) [] (characters.length + 1) characters with
  | some (.table _ _ members) => some (finishedMembers members)
  | _ => none

end TomlDocument
end HashedTree
