import HashedTree.NodeDocument
import HashedTree.Proofs.NumeralReading

/-!
# What a node's document has to hold

A document gives a node's tag, its name, its digest and the field of its kind, as the members of an
object or as the elements of an array. What is said here of these values decides whether a document
claims a node: nothing else in the document plays a part in it.
-/
namespace HashedTree.NodeSchema
open NumeralReading

/-- The values of the members of one name, in their order. -/
def valuesOf (name : String) (members : List (String × Json)) : List Json :=
  (members.filter (·.1 = name)).map Prod.snd

/-- The field that only nodes of one kind have. -/
def ownField : NodeKind → String
  | .file => "size"
  | .directory => "entries"
  | .link => "link"

def kindIndex : NodeKind → Int
  | .file => 0
  | .directory => 1
  | .link => 2

/-- The word for a kind, or below the top of a document its index. -/
inductive IsTag (top : Bool) (kind : NodeKind) : Json → Prop where
  | word : IsTag top kind (.string kind.word)
  | index (below : top = false) : IsTag top kind (.integer (kindIndex kind))

def IsText (v : Json) : Prop := ∃ text, v = .string text

def IsDigest (v : Json) : Prop := ∃ text digest, v = .string text ∧ Digest.ofHex text = .ok digest

/-- A document gives a name, and perhaps a digest and the field of its kind, for a node of a kind.
Members of other names do not matter; at the end of an array, a digest and the field behind it may
be cut off. -/
inductive Gives (top : Bool) (kind : NodeKind) : Json → Json → Option Json → Option Json → Prop where
  | object {members : List (String × Json)} {tag name : Json} {hash own : Option Json}
      (hasTag : valuesOf "type" members = [tag]) (isTag : IsTag top kind tag)
      (hasName : valuesOf "name" members = [name])
      (hasHash : valuesOf "hash" members = hash.toList)
      (hasOwn : valuesOf (ownField kind) members = own.toList) :
      Gives top kind (.object members) name hash own
  | array {tag name : Json} {hash own : Option Json} (isTag : IsTag top kind tag)
      (cut : hash = none → own = none) :
      Gives top kind (.array (tag :: name :: (hash.toList ++ own.toList))) name hash own

variable {top : Bool} {kind : NodeKind} {members : List (String × Json)} {name : String} {v : Json}

@[simp] theorem valuesOf_nil : valuesOf name [] = [] := rfl

theorem valuesOf_cons_self : valuesOf name ((name, v) :: members) = v :: valuesOf name members := by
  simp [valuesOf]

theorem valuesOf_cons_of_ne {other : String} (h : other ≠ name) :
    valuesOf name ((other, v) :: members) = valuesOf name members := by
  simp [valuesOf, h]

theorem valuesOf_append (name : String) (members others : List (String × Json)) :
    valuesOf name (members ++ others) = valuesOf name members ++ valuesOf name others := by
  simp [valuesOf]

theorem valuesOf_eq_nil_iff : valuesOf name members = [] ↔ ∀ member ∈ members, member.1 ≠ name := by
  simp [valuesOf]

/-- Documents whose integers a numeral may stand for. -/
inductive Ranged : Json → Prop where
  | null : Ranged .null
  | boolean (value : Bool) : Ranged (.boolean value)
  | integer {value : Int} (inRange : InRange value) : Ranged (.integer value)
  | real (value : Float) : Ranged (.real value)
  | string (value : String) : Ranged (.string value)
  | array {elements : List Json} (all : ∀ element ∈ elements, Ranged element) :
      Ranged (.array elements)
  | object {members : List (String × Json)} (all : ∀ member ∈ members, Ranged member.2) :
      Ranged (.object members)

/-- What stands directly in a document. -/
def parts : Json → List Json
  | .array elements => elements
  | .object members => members.map Prod.snd
  | .null | .boolean _ | .integer _ | .real _ | .string _ => []

end HashedTree.NodeSchema
