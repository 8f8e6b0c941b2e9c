import HashedTree.DocumentMismatch
import HashedTree.Node

/-! # Trees as documents

A node is an object with a tag `type` and the fields of its kind, or an array of the tag and the
fields in order. A digest of zeros and an empty list of entries are left out. Unknown members are
allowed. Whatever digests and orders a document claims, the tree read from it is rebuilt.
-/
namespace HashedTree.NodeDocument
open JsonReading

def commonMembers (kind : NodeKind) (name : String) (hash : Digest) : List (String × Json) :=
  ("type", .string kind.word) :: ("name", .string name) ::
    (if hash.isZero then [] else [("hash", hash.toJson)])

mutual
def toJson : Node → Json
  | .file name hash size =>
    .object (commonMembers .file name hash ++ [("size", .integer size.toNat)])
  | .directory name hash entries =>
    .object (commonMembers .directory name hash ++
      if entries.isEmpty then [] else [("entries", .array (toJsonAll entries))])
  | .link name hash target =>
    .object (commonMembers .link name hash ++ [("link", .string target)])

def toJsonAll : List Node → List Json
  | [] => []
  | node :: rest => toJson node :: toJsonAll rest
end

def text (layout : Json.Layout) (node : Node) : String :=
  String.ofList ((toJson node).text layout)

def kinds : List NodeKind := [.file, .directory, .link]

def kindOfWord (word : String) : Except Mismatch NodeKind :=
  match kinds.find? (·.word = word) with
  | some kind => .ok kind
  | none => .error (.unknownVariant word (kinds.map NodeKind.word))

/-- The kind that a tag names. Below the top of a document, it may also be its index. -/
def kindOfTag (top : Bool) : Json → Except Mismatch NodeKind
  | .string word => kindOfWord word
  | .integer index =>
    if top ∨ index < 0 then .error (.wrongType (.integer index) "variant identifier")
    else match kinds[index.toNat]? with
      | some kind => .ok kind
      | none => .error (.wrongValue (.integer index) "variant index 0 <= i < 3")
  | other => .error (.wrongType other.found "variant identifier")

/-- The kind of an object, from the only member named `type`. -/
def kindOfMembers (top : Bool) : Option NodeKind → List (String × Json) → Except Mismatch NodeKind
  | none, [] => .error (.missingField "type")
  | some kind, [] => .ok kind
  | seen, (name, value) :: rest =>
    if name = "type" then
      if seen.isSome then .error (.duplicateField "type")
      else (kindOfTag top value).bind fun kind => kindOfMembers top (some kind) rest
    else kindOfMembers top seen rest

def stringOf : Json → Except Mismatch String
  | .string text => .ok text
  | other => .error (.wrongType other.found "a string")

def sizeOf : Json → Except Mismatch UInt64
  | .integer n =>
    if n < 0 then .error (.wrongValue (.integer n) "u64") else .ok (UInt64.ofNat n.toNat)
  | other => .error (.wrongType other.found "u64")

/-- The fields of a node as far as they have been met. -/
structure Draft where
  name : Option String := none
  hash : Option Digest := none
  size : Option UInt64 := none
  entries : Option (List Node) := none
  target : Option String := none

def once {α : Type} (name : String) (field : Option α) (value : Except Mismatch α) :
    Except Mismatch (Option α) :=
  match field with
  | some _ => .error (.duplicateField name)
  | none => value.map some

def Draft.complete (kind : NodeKind) (d : Draft) : Except Mismatch Node :=
  match d.name with
  | none => .error (.missingField "name")
  | some name =>
    let hash := d.hash.getD .zero
    match kind with
    | .file => .ok (.file name hash (d.size.getD 0))
    | .directory => .ok (.directory name hash (d.entries.getD []))
    | .link =>
      match d.target with
      | some target => .ok (.link name hash target)
      | none => .error (.missingField "link")

def fieldsExpectation : NodeKind → String
  | .file => "struct FileNode with 3 elements"
  | .directory => "struct DirectoryNode with 3 elements"
  | .link => "struct SymbolicNode with 3 elements"

mutual
/-- The node that a document describes, with the digests and orders that it claims. -/
def claimed (top : Bool) : Json → Except Mismatch Node
  | .object members =>
    (kindOfMembers top none members).bind fun kind =>
      (claimedMembers kind {} members).bind (Draft.complete kind)
  | .array [] => .error (.missingField "type")
  | .array (tag :: fields) => (kindOfTag top tag).bind fun kind => claimedFields kind fields
  | .null => .error (.wrongType .null "internally tagged enum FsNode")
  | .boolean value => .error (.wrongType (.boolean value) "internally tagged enum FsNode")
  | .integer value => .error (.wrongType (.integer value) "internally tagged enum FsNode")
  | .real value => .error (.wrongType (.real value) "internally tagged enum FsNode")
  | .string value => .error (.wrongType (.string value) "internally tagged enum FsNode")

def claimedMembers (kind : NodeKind) (d : Draft) : List (String × Json) → Except Mismatch Draft
  | [] => .ok d
  | (name, value) :: rest =>
    let next : Except Mismatch Draft :=
      if name = "name" then (once name d.name (stringOf value)).map ({ d with name := · })
      else if name = "hash" then (once name d.hash (Digest.ofJson value)).map ({ d with hash := · })
      else match kind with
        | .file =>
          if name = "size" then (once name d.size (sizeOf value)).map ({ d with size := · })
          else .ok d
        | .directory =>
          if name = "entries" then
            (once name d.entries (claimedEntries value)).map ({ d with entries := · })
          else .ok d
        | .link =>
          if name = "link" then (once name d.target (stringOf value)).map ({ d with target := · })
          else .ok d
    next.bind fun d => claimedMembers kind d rest

/-- The fields of an array behind its tag: name, digest, and the field of the kind. -/
def claimedFields (kind : NodeKind) : List Json → Except Mismatch Node
  | [] => .error (.wrongLength 0 (fieldsExpectation kind))
  | [name] => (stringOf name).bind fun name =>
      shortened kind name .zero
  | [name, hash] => (stringOf name).bind fun name =>
      (Digest.ofJson hash).bind fun hash => shortened kind name hash
  | name :: hash :: last :: surplus =>
    (stringOf name).bind fun name =>
      (Digest.ofJson hash).bind fun hash =>
        let node : Except Mismatch Node :=
          match kind with
          | .file => (sizeOf last).map (.file name hash)
          | .directory => (claimedEntries last).map (.directory name hash)
          | .link => (stringOf last).map (.link name hash)
        node.bind fun node =>
          if surplus.isEmpty then .ok node
          else .error (.wrongLength (3 + surplus.length) "3 elements in sequence")
where
  /-- A node whose last field is cut off; only a link cannot do without it. -/
  shortened (kind : NodeKind) (name : String) (hash : Digest) : Except Mismatch Node :=
    match kind with
    | .file => .ok (.file name hash 0)
    | .directory => .ok (.directory name hash [])
    | .link => .error (.wrongLength 2 (fieldsExpectation kind))

def claimedEntries : Json → Except Mismatch (List Node)
  | .array elements => claimedAll elements
  | .null => .error (.wrongType .null "a sequence")
  | .boolean value => .error (.wrongType (.boolean value) "a sequence")
  | .integer value => .error (.wrongType (.integer value) "a sequence")
  | .real value => .error (.wrongType (.real value) "a sequence")
  | .string value => .error (.wrongType (.string value) "a sequence")
  | .object _ => .error (.wrongType .map "a sequence")

def claimedAll : List Json → Except Mismatch (List Node)
  | [] => .ok []
  | element :: rest =>
    (claimed false element).bind fun node => (claimedAll rest).map (node :: ·)
end

def objectionOf {α : Type} : Except Mismatch α → Option DocumentFailure
  | .ok _ => none
  | .error m => some (.objection m)

/-- The tag at the top is examined as soon as it is read; everything else waits for the end of the
document, so that a fault inside the document comes first and one behind it comes last. -/
def reader : Reader Mismatch where
  skipping _ := false
  objection s :=
    let wrongTag (found : Found) : Option DocumentFailure :=
      some (.objection (.wrongType found "variant identifier"))
    match s.frames, s.mode with
    | [], .done document => objectionOf (claimed true document)
    | [.object ((name, value) :: _) _], .next =>
      if name = "type" then objectionOf (kindOfTag true value) else none
    | [.array [tag]], .next => objectionOf (kindOfTag true tag)
    | [.object done name], .colon =>
      if name = "type" ∧ done.any (·.1 = "type") then some (.objection (.duplicateField "type"))
      else none
    | [_, .object _ name], .firstElement => if name = "type" then wrongTag .sequence else none
    | [_, .object _ name], .firstName => if name = "type" then wrongTag .map else none
    | [_, .array []], .firstElement => wrongTag .sequence
    | [_, .array []], .firstName => wrongTag .map
    | _, _ => none

def parse (text : String) : Except DocumentFailure Node :=
  (reader.read text.toList).bind fun document =>
    ((claimed true document).mapError .objection).map Node.rebuild

end HashedTree.NodeDocument
