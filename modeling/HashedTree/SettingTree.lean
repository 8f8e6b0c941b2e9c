import HashedTree.KeyPath
import HashedTree.LetterCase
import HashedTree.NamedTable

/-! # Values of settings before they are decoded, and how one layer is laid over another

A value that is read from a source names it as its origin. Laid over a table, a table changes only
the members that it has; any other value replaces what was there. Names are kept in lowercase, and
tables that come about by laying one over another have no origin.
-/
namespace HashedTree

inductive SettingTree where
  | null (origin : Option String)
  | boolean (origin : Option String) (value : Bool)
  | integer (origin : Option String) (value : Int)
  | real (origin : Option String) (value : Float)
  | text (origin : Option String) (value : String)
  | array (origin : Option String) (elements : List SettingTree)
  | table (origin : Option String) (members : List (String × SettingTree))

namespace SettingTree

def empty : SettingTree := .table none []

def origin : SettingTree → Option String
  | .null origin | .boolean origin _ | .integer origin _ | .real origin _ | .text origin _
  | .array origin _ | .table origin _ => origin

/-- The members of a table; nothing else has any. -/
def members : SettingTree → List (String × SettingTree)
  | .table _ members => members
  | _ => []

/-- The elements of an array; nothing else has any. -/
def elements : SettingTree → List SettingTree
  | .array _ elements => elements
  | _ => []

def member? (name : String) (tree : SettingTree) : Option SettingTree :=
  NamedTable.find? name tree.members

/-- A tree with a member set. What is no table becomes one. -/
def withMember (target : SettingTree) (name : String) (value : SettingTree) : SettingTree :=
  match target with
  | .table origin members => .table origin (NamedTable.put name value members)
  | _ => .table none [(name, value)]

theorem member?_withMember (target : SettingTree) (name other : String) (value : SettingTree) :
    (target.withMember name value).member? other =
      if name = other then some value else target.member? other := by
  cases target with
  | table origin members => exact NamedTable.find?_put name other value members
  | null | boolean | integer | real | text | array => rfl

mutual
def lay (target : SettingTree) (name : String) : SettingTree → SettingTree
  | .table _ incoming =>
    let key := LetterCase.lowercase name
    target.withMember key (layMembers ((target.member? key).getD empty) incoming)
  | other => target.withMember (LetterCase.lowercase name) other

def layMembers (target : SettingTree) : List (String × SettingTree) → SettingTree
  | [] => target
  | (name, value) :: rest => layMembers (lay target name value) rest
end

/-- A list with an element set; what is missing before it is filled up. A negative index counts from
the end. -/
def withElement (index : Int) (value : SettingTree) (elements : List SettingTree) : List SettingTree :=
  let position := if index < 0 then (elements.length + index).toNat else index.toNat
  let filled := elements ++ List.replicate (position + 1 - elements.length) (.null none)
  filled.set position value

def element? (index : Int) (elements : List SettingTree) : Option SettingTree :=
  elements[if index < 0 then (elements.length + index).toNat else index.toNat]?

/-- An array without an element; what is no array becomes one. -/
def asArray (target : SettingTree) : Option String × List SettingTree :=
  match target with
  | .array origin elements => (origin, elements)
  | _ => (none, [])

def layAt (value : SettingTree) : List KeyStep → SettingTree → SettingTree
  | [], target => target
  | [.member name], target => target.lay name value
  | [.element index], target =>
    let (origin, elements) := target.asArray
    .array origin (withElement index value elements)
  | .member name :: rest, target =>
    let key := LetterCase.lowercase name
    target.withMember key (layAt value rest ((target.member? key).getD (.null none)))
  | .element index :: rest, target =>
    let (origin, elements) := target.asArray
    let inner := layAt value rest ((element? index elements).getD (.null none))
    .array origin (withElement index inner elements)

/-- Lays a layer over a tree; its keys may be paths. -/
def layLayer (target : SettingTree) (layer : List (String × SettingTree)) : SettingTree :=
  layer.foldl (fun tree (key, value) => layAt value (KeyPath.ofKey key) tree) target

end SettingTree
end HashedTree
