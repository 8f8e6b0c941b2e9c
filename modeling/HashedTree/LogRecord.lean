import HashedTree.JsonDocument
import HashedTree.LogFilter
import HashedTree.TreeCommands

/-! # Events as lines of a log

A line gives the time, the level, the open span, the target, the message and the fields of an event,
either as text, perhaps with colors, or as a document.
-/
namespace HashedTree
open ByteBlocks

/-- The value of a field. -/
inductive LogValue where
  | number (value : Nat)
  | text (value : String)
  deriving DecidableEq, Repr

structure LogRecord where
  level : LogLevel
  target : String
  message : String
  fields : List (String × LogValue)
  span : Option LogSpan
  deriving DecidableEq, Repr

/-- What a log says about time: when an event happened, and how long a build took. -/
structure LogClock where
  now : String
  elapsed : String

namespace LogRecord

/-! ### The events of the program -/

def programTarget : String := "dirtree"

def buildTarget : String := "dirtree::tree::builder"

def commandTarget : String := "dirtree::cli::route"

def buildSpan (root : Bytes) : LogSpan :=
  ⟨"build", buildTarget, .info, [("root", Utf8Text.lossy root)]⟩

private def pathField (path : Bytes) : String × LogValue := ("path", .text (Utf8Text.lossy path))

def ofBuildEvent (clock : LogClock) (root : Bytes) (event : BuildEvent) : LogRecord :=
  let record (level : LogLevel) (message : String) (fields : List (String × LogValue)) : LogRecord :=
    ⟨level, buildTarget, message, fields, some (buildSpan root)⟩
  match event with
  | .started => record .info "Starting tree build" []
  | .rootNotFound cause => record .error ("Failed to stat root: " ++ cause.text) []
  | .rootNotADirectory => record .error "Root is not a directory" []
  | .builtDirectory path count =>
    record .debug "Built directory" [pathField path, ("entry_count", .number count)]
  | .builtLink path target =>
    record .trace "Built symbolic link" [pathField path, ("link", .text target)]
  | .hashedFile path hash size =>
    record .trace "Hashed file"
      [pathField path, ("hash", .text hash.toHex), ("size", .number size.toNat)]
  | .failed error => record .error ("Tree build failed: " ++ error.text) []
  | .completed s hash =>
    record .info "Tree build completed"
      [("files", .number s.files.toNat), ("directories", .number s.directories.toNat),
        ("symlinks", .number s.links.toNat), ("total_size", .number s.totalSize.toNat),
        ("root_hash", .text hash.toHex), ("duration_ms", .text clock.elapsed)]

def ofProgramEvent (clock : LogClock) : ProgramEvent → LogRecord
  | .starting => ⟨.info, programTarget, "Dirtree CLI starting", [], none⟩
  | .duringBuild root event => ofBuildEvent clock root event
  | .computedHash hash =>
    ⟨.info, commandTarget, "Computed root hash", [("root_hash", .text hash.toHex)], none⟩
  | .succeeded => ⟨.info, programTarget, "Command completed successfully", [], none⟩
  | .failed error => ⟨.error, programTarget, "Command failed: " ++ error.text, [], none⟩

/-! ### Filtering -/

/-- What a filter leaves of an event: a span that is not noticed is not open. -/
def filtered? (filter : LogFilter) (record : LogRecord) : Option LogRecord :=
  let names := "message" :: record.fields.map Prod.fst
  if filter.logs record.span record.level record.target names then
    some { record with span := record.span.filter filter.opens }
  else none

/-! ### Lines of text -/

def styled (colors : Bool) (style : String) (text : String) : String :=
  if colors then "\x1b[" ++ style ++ "m" ++ text ++ "\x1b[0m" else text

private def dimmed : String := "2"

private def bold : String := "1"

private def italic : String := "3"

def levelStyle : LogLevel → String
  | .error => "31"
  | .warn => "33"
  | .info => "32"
  | .debug => "34"
  | .trace => "35"

def levelWord (level : LogLevel) : String :=
  if level.word.length < 5 then " " ++ level.word else level.word

/-- A character of a message. Those that could steer a terminal are written by their numbers. -/
def messageChar (c : Char) : List Char :=
  if c.toNat ∈ [0x7, 0x8, 0xC, 0x1B, 0x7F] then
    ['\\', 'x'] ++ (if c.toNat < 16 then ['0'] else []) ++ Nat.toDigits 16 c.toNat
  else if 0x80 ≤ c.toNat ∧ c.toNat ≤ 0x9F then
    ['\\', 'u', '\x7b'] ++ Nat.toDigits 16 c.toNat ++ ['\x7d']
  else [c]

def messageText (message : String) : String := String.ofList (message.toList.flatMap messageChar)

def LogValue.plain : LogValue → String
  | .number value => toString value
  | .text value => value

private def fieldText (colors : Bool) (name value : String) : String :=
  styled colors italic name ++ styled colors dimmed "=" ++ value

private def spanText (colors : Bool) (span : LogSpan) : String :=
  let fields := String.intercalate " " (span.fields.map fun (name, value) => fieldText colors name value)
  styled colors bold span.name ++
    (if fields.isEmpty then ""
      else styled colors bold "\x7b" ++ fields ++ styled colors bold "\x7d") ++
    styled colors dimmed ":" ++ " "

def textLine (colors : Bool) (clock : LogClock) (record : LogRecord) : String :=
  let parts := messageText record.message ::
    record.fields.map fun (name, value) => fieldText colors name (LogValue.plain value)
  styled colors dimmed clock.now ++ " " ++
    styled colors (levelStyle record.level) (levelWord record.level) ++ " " ++
    ((record.span.map (spanText colors)).getD "") ++
    styled colors dimmed record.target ++ styled colors dimmed ":" ++ " " ++
    String.intercalate " " parts ++ "\n"

/-! ### Lines with documents -/

def LogValue.document : LogValue → Json
  | .number value => .integer value
  | .text value => .string value

private def spanDocument (span : LogSpan) : Json :=
  .object (span.fields.map (fun (name, value) => (name, Json.string value)) ++
    [("name", .string span.name)])

def document (clock : LogClock) (record : LogRecord) : Json :=
  let span : List (String × Json) := match record.span with
    | some s => [("span", spanDocument s), ("spans", .array [spanDocument s])]
    | none => []
  .object ([("timestamp", .string clock.now), ("level", .string record.level.word),
    ("fields", .object (("message", .string record.message) ::
      record.fields.map fun (name, value) => (name, LogValue.document value))),
    ("target", .string record.target)] ++ span)

def documentLine (clock : LogClock) (record : LogRecord) : String :=
  String.ofList ((record.document clock).text .compact) ++ "\n"

end LogRecord
end HashedTree
