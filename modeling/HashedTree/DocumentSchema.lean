import HashedTree.DocumentMismatch

/-! # Documents of a fixed shape, checked while they are read

A record is an object, or an array of its fields in order. Unknown members of a record are skipped.
A value of a wrong type is refused as soon as it is recognised.
-/
namespace HashedTree
open JsonReading

/-- The shape of a document. -/
inductive Schema where
  | text (expectation : String)
  | truth
  | table (element : Schema)
  | record (expectation : String) (fields : List (String × Schema))

namespace Schema

def expectation : Schema → String
  | .text expectation => expectation
  | .truth => "a boolean"
  | .table _ => "a map"
  | .record expectation _ => expectation

def inside? (schema : Schema) : Frame → Option Schema
  | .object _ name =>
    match schema with
    | .record _ fields => (fields.find? (·.1 = name)).map Prod.snd
    | .table element => some element
    | .text _ | .truth => none
  | .array done =>
    match schema with
    | .record _ fields => (fields[done.length]?).map Prod.snd
    | .table _ | .text _ | .truth => none

/-- The shape of the value that is read inside all open frames; nothing if it is skipped. -/
def at? (schema : Schema) (frames : List Frame) : Option Schema :=
  frames.foldr (fun frame outer => outer.bind (·.inside? frame)) (some schema)

def mismatch? (schema : Schema) (value : Json) : Option Mismatch :=
  match schema, value with
  | .text _, .string _ | .truth, .boolean _ | .table _, .object _
  | .record .., .object _ | .record .., .array _ => none
  | schema, value => some (.wrongType value.found schema.expectation)

def objection (schema : Schema) (s : State) : Option (Failure Mismatch) :=
  match s.mode, s.frames with
  | .done document, [] => (schema.mismatch? document).map .objection
  | .next, .object ((name, value) :: _) _ :: outer =>
    ((schema.at? (.object [] name :: outer)).bind (·.mismatch? value)).map .objection
  | .next, .array (value :: done) :: outer =>
    ((schema.at? (.array done :: outer)).bind (·.mismatch? value)).map .objection
  | .value, .array done :: outer =>
    match schema.at? outer with
    | some (.record _ fields) => if fields.length ≤ done.length then some (.fault .malformed) else none
    | _ => none
  | .firstElement, _ :: outer =>
    ((schema.at? outer).bind (·.mismatch? (.array []))).map .objection
  | .firstName, _ :: outer =>
    ((schema.at? outer).bind (·.mismatch? (.object []))).map .objection
  | .colon, .object done name :: outer =>
    match schema.at? outer with
    | some (.record _ fields) =>
      if fields.any (·.1 = name) ∧ done.any (·.1 = name) then
        some (.objection (.duplicateField name))
      else none
    | _ => none
  | _, _ => none

def skipping (schema : Schema) (s : State) : Bool :=
  match s.mode, s.frames with
  | .string .name _ _, _ :: outer => (schema.at? outer).isNone
  | _, frames => (schema.at? frames).isNone

def reader (schema : Schema) : Reader Mismatch where
  skipping := schema.skipping
  objection := schema.objection

end Schema

/-- The field of a record by its name, or by its position if the record is an array. -/
def Json.field? (record : Json) (position : Nat) (name : String) : Option Json :=
  match record with
  | .object members => (members.find? (·.1 = name)).map Prod.snd
  | .array elements => elements[position]?
  | _ => none

end HashedTree
