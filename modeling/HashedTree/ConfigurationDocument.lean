import HashedTree.ConfigurationSettings
import HashedTree.DocumentSchema
import HashedTree.NamedTable

/-! # Settings as a document; what is missing has its default -/
namespace HashedTree.ConfigurationDocument
open ByteBlocks

def loggingSchema : Schema :=
  .record "struct LoggingConfig"
    [("level", .text "a string"), ("format", .text "a string"), ("output", .text "a string"),
      ("file", .text "path string"), ("color", .truth), ("modules", .table (.text "a string"))]

def outputSchema : Schema :=
  .record "struct OutputConfig" [("format", .text "a string"), ("pretty", .truth)]

def schema : Schema :=
  .record "struct DirTreeConfig" [("logging", loggingSchema), ("output", outputSchema)]

private def textOr (fallback : String) : Option Json → String
  | some (.string text) => text
  | _ => fallback

private def truthOr (fallback : Bool) : Option Json → Bool
  | some (.boolean value) => value
  | _ => fallback

private def bytesOr (fallback : Bytes) : Option Json → Bytes
  | some (.string text) => Utf8Text.utf8 text
  | _ => fallback

/-- The table of texts; of a repeated name, the last text counts. -/
def tableOf : Option Json → List (String × String)
  | some (.object members) =>
    members.foldl (fun table (name, value) =>
      match value with
      | .string text => NamedTable.put name text table
      | _ => table) []
  | _ => []

def loggingOf (file : Bytes) (record : Json) : LoggingSettings :=
  let d := LoggingSettings.default file
  ⟨textOr d.level (record.field? 0 "level"), textOr d.format (record.field? 1 "format"),
    textOr d.output (record.field? 2 "output"), bytesOr d.file (record.field? 3 "file"),
    truthOr d.color (record.field? 4 "color"), tableOf (record.field? 5 "modules")⟩

def outputOf (record : Json) : OutputSettings :=
  let d := OutputSettings.default
  ⟨textOr d.format (record.field? 0 "format"), truthOr d.pretty (record.field? 1 "pretty")⟩

def settingsOf (file : Bytes) (document : Json) : Settings :=
  ⟨loggingOf file ((document.field? 0 "logging").getD .null),
    outputOf ((document.field? 1 "output").getD .null)⟩

def parse (file : Bytes) (text : String) : Except DocumentFailure Settings :=
  (schema.reader.read text.toList).map (settingsOf file)

end HashedTree.ConfigurationDocument
