import HashedTree.FileSystem
import HashedTree.JsonReading
import HashedTree.SettingDecoding
import HashedTree.TomlDocument

/-! # Finding and reading files of settings

The end of a file's name tells its format. A path that leads to no file is tried again with each of
the known endings. Two of the formats are read here; the readers of the others belong to the platform
that the program runs on.
-/
namespace HashedTree
open ByteBlocks

/-- Why no settings could be loaded. -/
inductive ConfigurationFault where
  | fileNotFound (path : Bytes)
  | unknownFormat (path : Bytes)
  | unreadable (cause : SystemError)
  | malformed
  | noTable (found : SettingTree) (source : String)
  | undecodable (fault : DecodingFault)
  | invalid (complaints : List String)

def ConfigurationFault.text : ConfigurationFault → String
  | .fileNotFound path => "configuration file \"" ++ Utf8Text.lossy path ++ "\" not found"
  | .unknownFormat path =>
    "configuration file \"" ++ Utf8Text.lossy path ++ "\" is not of a registered file format"
  | .unreadable cause => cause.text
  | .malformed => "malformed configuration file"
  | .noTable found source =>
    "invalid type: " ++ found.typeText ++ ", expected a map in " ++ source ++ " in " ++ source
  | .undecodable fault => fault.text
  | .invalid complaints =>
    "Configuration validation failed:\n" ++ String.intercalate "\n" complaints

/-- The formats that are not read here. -/
inductive ForeignFormat where
  | yaml
  | ini
  | ron
  | json5
  deriving DecidableEq, Repr

inductive FileFormat where
  | toml
  | json
  | foreign (format : ForeignFormat)
  deriving DecidableEq, Repr

def FileFormat.suffixes : FileFormat → List String
  | .toml => ["toml"]
  | .json => ["json"]
  | .foreign .yaml => ["yaml", "yml"]
  | .foreign .ini => ["ini"]
  | .foreign .ron => ["ron"]
  | .foreign .json5 => ["json5"]

/-- What the program finds where it runs: the home directory on record for the account, the formats
in the order in which they are tried, and the readers of foreign ones. A reader is given the name of
its source and the text. -/
structure Platform where
  accountHome : Option Bytes
  formats : List FileFormat
  allFormats : ∀ format, format ∈ formats
  readForeign : ForeignFormat → String → String →
    Except ConfigurationFault (List (String × SettingTree))

/-- A platform on which nothing foreign can be read. -/
def Platform.plain (accountHome : Option Bytes) : Platform where
  accountHome := accountHome
  formats := [.toml, .json, .foreign .yaml, .foreign .ini, .foreign .ron, .foreign .json5]
  allFormats
    | .toml | .json => by decide
    | .foreign format => by cases format <;> decide
  readForeign _ _ _ := .error .malformed

namespace ConfigurationFiles

private def dot : UInt8 := 46

/-- What stands behind the last dot of a file's name. A dot in front does not count. -/
def suffix? (path : Bytes) : Option Bytes :=
  (PathText.fileName? path).bind fun name =>
    let behind := (name.reverse.takeWhile (· ≠ dot)).reverse
    if name.length ≤ behind.length + 1 then none else some behind

def formatOf? (platform : Platform) (path : Bytes) : Option FileFormat :=
  (suffix? path).bind fun s => platform.formats.find? fun f => s ∈ f.suffixes.map Utf8Text.utf8

private def withoutEmptyEnd : Bytes → Bytes
  | 47 :: rest => withoutEmptyEnd rest
  | 46 :: 47 :: rest => withoutEmptyEnd rest
  | rest => rest

def withSuffix (path : Bytes) (suffix : String) : Bytes :=
  (withoutEmptyEnd path.reverse).reverse ++ dot :: Utf8Text.utf8 suffix

/-- What is tried in place of a path that leads to no file. -/
def suffixed (platform : Platform) (path : Bytes) : List (Bytes × FileFormat) :=
  if (PathText.fileName? path).isNone then []
  else platform.formats.flatMap fun f => f.suffixes.map fun s => (withSuffix path s, f)

def isFile (fs : FileSystem) (path : Bytes) : Bool :=
  match fs.lookup true path with
  | .ok (.file _ _) => true
  | _ => false

def workingPath (fs : FileSystem) : Bytes :=
  if fs.workingDirectory.isEmpty then [PathText.slash]
  else fs.workingDirectory.flatMap fun name => PathText.slash :: name

def find (platform : Platform) (fs : FileSystem) (path : Bytes) :
    Except ConfigurationFault (Bytes × FileFormat) :=
  let whole := PathText.join (workingPath fs) path
  if isFile fs whole then
    match formatOf? platform whole with
    | some format => .ok (whole, format)
    | none => .error (.unknownFormat whole)
  else
    match (suffixed platform whole).find? fun candidate => isFile fs candidate.1 with
    | some candidate => .ok candidate
    | none => .error (.fileNotFound path)

/-- The way from one directory to a place: out of what they do not share, and into the rest. -/
def wayFrom : List Bytes → List Bytes → List Bytes
  | base :: bases, name :: names =>
    if base = name then wayFrom bases names
    else List.replicate (bases.length + 1) PathText.parent ++ name :: names
  | bases, names => List.replicate bases.length PathText.parent ++ names

/-- A file as it is named in messages: by the way from the working directory. -/
def sourceName (fs : FileSystem) (path : Bytes) : String :=
  let way := wayFrom fs.workingDirectory (PathText.proper path)
  Utf8Text.lossy (way.intersperse [PathText.slash]).flatten

/-! ### Documents as trees of values -/

private def scalarTree (origin : Option String) : TomlScalars.Scalar → SettingTree
  | .string value => .text origin value
  | .integer value => .integer origin value
  | .real value => .real origin value
  | .boolean value => .boolean origin value
  | .date text => .text origin text

mutual
def ofToml (origin : Option String) : Toml → SettingTree
  | .scalar value => scalarTree origin value
  | .array elements => .array origin (ofTomlAll origin elements)
  | .table members => .table origin (ofTomlMembers origin members)

def ofTomlAll (origin : Option String) : List Toml → List SettingTree
  | [] => []
  | element :: rest => ofToml origin element :: ofTomlAll origin rest

def ofTomlMembers (origin : Option String) : List (String × Toml) → List (String × SettingTree)
  | [] => []
  | (name, value) :: rest => (name, ofToml origin value) :: ofTomlMembers origin rest
end

def ofInteger (origin : Option String) (n : Int) : SettingTree :=
  if DecimalReading.fitsWord n then .integer origin n
  else .real origin (Float.ofScientific n.toNat false 0)

mutual
def ofJson (origin : Option String) : Json → SettingTree
  | .null => .null origin
  | .boolean value => .boolean origin value
  | .integer value => ofInteger origin value
  | .real value => .real origin value
  | .string value => .text origin value
  | .array elements => .array origin (ofJsonAll origin elements)
  | .object members => .table origin (ofJsonMembers origin [] members)

def ofJsonAll (origin : Option String) : List Json → List SettingTree
  | [] => []
  | element :: rest => ofJson origin element :: ofJsonAll origin rest

/-- The members of an object, added to those before them; of a repeated name the last counts. -/
def ofJsonMembers (origin : Option String) (done : List (String × SettingTree)) :
    List (String × Json) → List (String × SettingTree)
  | [] => done
  | (name, value) :: rest =>
    ofJsonMembers origin (NamedTable.put name (ofJson origin value) done) rest
end

private def anyDocument : JsonReading.Reader Empty := ⟨fun _ => false, fun _ => none⟩

def parse (platform : Platform) (source : String) (text : String) :
    FileFormat → Except ConfigurationFault (List (String × SettingTree))
  | .toml =>
    match TomlDocument.parse? text with
    | some members => .ok (ofTomlMembers (some source) members)
    | none => .error .malformed
  | .json =>
    match anyDocument.read text.toList with
    | .ok document =>
      match ofJson (some source) document with
      | .table _ members => .ok members
      | other => .error (.noTable other source)
    | .error _ => .error .malformed
  | .foreign format => platform.readForeign format source text

private def withoutMark : Bytes → Bytes
  | 0xEF :: 0xBB :: 0xBF :: rest => rest
  | bytes => bytes

/-- What reading the file at a path gives. -/
structure Reading where
  source : String
  text : String
  format : FileFormat

def read (platform : Platform) (fs : FileSystem) (path : Bytes) :
    Except ConfigurationFault Reading := do
  let (whole, format) ← find platform fs path
  let content ← (fs.contentAt whole).mapError .unreadable
  return ⟨sourceName fs whole, Utf8Text.lossy (withoutMark content), format⟩

def layer (platform : Platform) (fs : FileSystem) (path : Bytes) :
    Except ConfigurationFault (List (String × SettingTree)) :=
  (read platform fs path).bind fun r => parse platform r.source r.text r.format

def leadsSomewhere (fs : FileSystem) (path : Bytes) : Bool := (fs.lookup true path).toOption.isSome

/-- The layer of settings in the file at a path; without a file that can be read, it is empty. -/
def optionalLayer (platform : Platform) (fs : FileSystem) (path : Bytes) :
    Except ConfigurationFault (List (String × SettingTree)) :=
  match read platform fs path with
  | .ok r => parse platform r.source r.text r.format
  | .error _ => .ok []

end ConfigurationFiles
end HashedTree
