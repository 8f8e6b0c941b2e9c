import HashedTree.ConfigurationSettings
import HashedTree.QuotedText
import HashedTree.SettingTree
import HashedTree.ShortestDecimal

/-! # From trees of values to settings

A text may be written as a number or a truth value, and a truth value as a number or a word. A
section is a table or an array of its fields in order; what is missing has its default, and what is
unknown is ignored.
-/
namespace HashedTree
open ByteBlocks

namespace SettingTree

private def truthText (value : Bool) : String := if value then "true" else "false"

private def ticked (text : String) : String := "\x60" ++ text ++ "\x60"

private def realText (x : Float) : String :=
  let text := ShortestDecimal.plainText x
  if x.isFinite ∧ !text.toList.contains '.' then text ++ ".0" else text

def typeText : SettingTree → String
  | .null _ => "unit value"
  | .boolean _ value => "boolean " ++ ticked (truthText value)
  | .integer _ value => "64-bit integer " ++ ticked (toString value)
  | .real _ value => "floating point " ++ ticked (ShortestDecimal.plainText value)
  | .text _ value => "string " ++ QuotedText.quoted value
  | .array _ _ => "sequence"
  | .table _ _ => "map"

def shapeText : SettingTree → String
  | .integer _ value => "integer " ++ ticked (toString value)
  | .real _ value => "floating point " ++ ticked (realText value)
  | other => other.typeText

end SettingTree

/-- A step on the way to a value: the name of a member or the position of an element. -/
inductive SettingStep where
  | name (name : String)
  | position (index : Nat)
  deriving DecidableEq, Repr

/-- Why a tree of values holds no settings. -/
inductive DecodingFault where
  | noText (way : List SettingStep) (found : SettingTree)
  | noTruth (way : List SettingStep) (found : SettingTree)
  | noSection (expected : String) (found : SettingTree)

namespace DecodingFault

def inside (step : SettingStep) : DecodingFault → DecodingFault
  | .noText way found => .noText (step :: way) found
  | .noTruth way found => .noTruth (step :: way) found
  | .noSection expected found => .noSection expected found

def wayText : List SettingStep → String
  | [] => ""
  | .position n :: rest => "[" ++ toString n ++ "]" ++ following rest
  | .name name :: rest => name ++ following rest
where
  following : List SettingStep → String
    | [] => ""
    | .position n :: rest => "[" ++ toString n ++ "]" ++ following rest
    | .name name :: rest => "." ++ name ++ following rest

private def wrongType (found : String) (expected : String) (way : List SettingStep)
    (origin : Option String) : String :=
  "invalid type: " ++ found ++ ", expected " ++ expected ++ " for key \x60" ++ wayText way ++ "\x60" ++
    match origin with
    | some source => " in " ++ source
    | none => ""

def text : DecodingFault → String
  | .noText way found => wrongType found.typeText "a string" way found.origin
  | .noTruth way found => wrongType found.typeText "a boolean" way found.origin
  | .noSection expected found => "invalid type: " ++ found.shapeText ++ ", expected " ++ expected

end DecodingFault

namespace SettingDecoding

def textOf : SettingTree → Except DecodingFault String
  | .text _ value => .ok value
  | .boolean _ value => .ok (if value then "true" else "false")
  | .integer _ value => .ok (toString value)
  | .real _ value => .ok (ShortestDecimal.plainText value)
  | other => .error (.noText [] other)

def pathOf (tree : SettingTree) : Except DecodingFault Bytes := (textOf tree).map Utf8Text.utf8

/-- A word for a truth value counts in either case, and is shown in lowercase if it is none. -/
def truthOf : SettingTree → Except DecodingFault Bool
  | .boolean _ value => .ok value
  | .integer _ value => .ok (value ≠ 0)
  | .real _ value => .ok (value != 0.0)
  | .text origin value =>
    let word := LetterCase.lowercase value
    if word ∈ ["1", "true", "on", "yes"] then .ok true
    else if word ∈ ["0", "false", "off", "no"] then .ok false
    else .error (.noTruth [] (.text origin word))
  | other => .error (.noTruth [] other)

def tableOf : SettingTree → Except DecodingFault (List (String × String))
  | .table _ members => members.mapM fun (name, value) =>
    ((textOf value).mapError (·.inside (.name name))).map (name, ·)
  | other => .error (.noSection "a map" other)

def checkSection (expected : String) : SettingTree → Except DecodingFault Unit
  | .table _ _ | .array _ _ => .ok ()
  | other => .error (.noSection expected other)

/-- A field of a section, by its name in a table and by its position in an array. -/
def field {α : Type} (tree : SettingTree) (position : Nat) (name : String) (fallback : α)
    (decode : SettingTree → Except DecodingFault α) : Except DecodingFault α :=
  match tree with
  | .array _ elements =>
    match elements[position]? with
    | some value => (decode value).mapError (·.inside (.position position))
    | none => .ok fallback
  | tree =>
    match tree.member? name with
    | some value => (decode value).mapError (·.inside (.name name))
    | none => .ok fallback

def loggingOf (file : Bytes) (tree : SettingTree) : Except DecodingFault LoggingSettings := do
  let d := LoggingSettings.default file
  checkSection "struct LoggingConfig" tree
  let level ← field tree 0 "level" d.level textOf
  let format ← field tree 1 "format" d.format textOf
  let output ← field tree 2 "output" d.output textOf
  let file ← field tree 3 "file" d.file pathOf
  let color ← field tree 4 "color" d.color truthOf
  let modules ← field tree 5 "modules" d.modules tableOf
  return ⟨level, format, output, file, color, modules⟩

def outputOf (tree : SettingTree) : Except DecodingFault OutputSettings := do
  let d := OutputSettings.default
  checkSection "struct OutputConfig" tree
  let format ← field tree 0 "format" d.format textOf
  let pretty ← field tree 1 "pretty" d.pretty truthOf
  return ⟨format, pretty⟩

def settingsOf (file : Bytes) (tree : SettingTree) : Except DecodingFault Settings := do
  let logging ← field tree 0 "logging" (.default file) (loggingOf file)
  let output ← field tree 1 "output" .default outputOf
  return ⟨logging, output⟩

end SettingDecoding
end HashedTree
