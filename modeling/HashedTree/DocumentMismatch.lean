import HashedTree.Digest
import HashedTree.JsonReading
import HashedTree.QuotedText

/-! # Why a well-formed document does not describe the value that is wanted -/
namespace HashedTree

/-- What stands in a document where something else is wanted. -/
inductive Found where
  | null
  | boolean (value : Bool)
  | integer (value : Int)
  | real (value : Float)
  | string (value : String)
  | sequence
  | map

def Json.found : Json → Found
  | .null => .null
  | .boolean value => .boolean value
  | .integer value => .integer value
  | .real value => .real value
  | .string value => .string value
  | .array _ => .sequence
  | .object _ => .map

def Found.text : Found → String
  | .null => "null"
  | .boolean true => "boolean `true`"
  | .boolean false => "boolean `false`"
  | .integer value => "integer `" ++ toString value ++ "`"
  | .real value => "floating point `" ++ ShortestDecimal.mixedText value ++ "`"
  | .string value => "string " ++ QuotedText.quoted value
  | .sequence => "sequence"
  | .map => "map"

/-- Why a document is refused. -/
inductive Mismatch where
  | wrongType (found : Found) (expected : String)
  | wrongValue (found : Found) (expected : String)
  | wrongLength (length : Nat) (expected : String)
  | missingField (name : String)
  | duplicateField (name : String)
  | unknownVariant (name : String) (known : List String)
  | wrongDigest (text : String) (fault : HexFault)

private def ticked (word : String) : String := "`" ++ word ++ "`"

def HexFault.text : HexFault → String
  | .oddLength => "Odd number of digits"
  | .wrongLength => "Invalid string length"
  | .notADigit byte position =>
    "Invalid character " ++ QuotedText.quotedChar (Char.ofNat byte.toNat) ++ " at position " ++
      toString position

def Mismatch.text : Mismatch → String
  | .wrongType found expected => "invalid type: " ++ found.text ++ ", expected " ++ expected
  | .wrongValue found expected => "invalid value: " ++ found.text ++ ", expected " ++ expected
  | .wrongLength length expected =>
    "invalid length " ++ toString length ++ ", expected " ++ expected
  | .missingField name => "missing field " ++ ticked name
  | .duplicateField name => "duplicate field " ++ ticked name
  | .unknownVariant name known =>
    "unknown variant " ++ ticked name ++ ", expected one of " ++
      String.intercalate ", " (known.map ticked)
  | .wrongDigest text fault => "invalid digest " ++ QuotedText.quoted text ++ ": " ++ fault.text

abbrev DocumentFailure := JsonReading.Failure Mismatch

namespace Digest
open JsonReading

def expectation : String := "a 32-byte hex string"

def ofJson : Json → Except Mismatch Digest
  | .string text =>
    match ofHex text with
    | .ok digest => .ok digest
    | .error fault => .error (.wrongDigest text fault)
  | other => .error (.wrongType other.found expectation)

def toJson (d : Digest) : Json := .string d.toHex

def reader : Reader Mismatch where
  skipping _ := false
  objection s :=
    match s.frames, s.mode with
    | [_], .firstElement => some (.objection (.wrongType .sequence expectation))
    | [_], .firstName => some (.objection (.wrongType .map expectation))
    | [], .done document =>
      match ofJson document with
      | .ok _ => none
      | .error m => some (.objection m)
    | _, _ => none

def parse (text : String) : Except DocumentFailure Digest :=
  (reader.read text.toList).bind fun document => (ofJson document).mapError .objection

end Digest
end HashedTree
