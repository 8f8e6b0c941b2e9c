import HashedTree.FileListing
import HashedTree.Session

/-! # The program

Which files there are is read from the standard input, as a listing, because the target of a link can
be learned in no other way here; for instance `find . -printf '%y\t%p\t%l\n'` writes one. The
contents of the listed files are then read where they are. The variables of the environment and the
home directory of the account are read where the system keeps them.
-/
namespace HashedTree.Main
open ByteBlocks

private def equalsSign : UInt8 := 61

/-- The name and the value of a variable. A name may start with an equals sign. -/
def entry? : Bytes → Option (String × String)
  | [] => none
  | first :: rest =>
    let name := first :: rest.takeWhile (· ≠ equalsSign)
    match rest.dropWhile (· ≠ equalsSign) with
    | [] => none
    | _ :: value => do return (← Utf8Text.ofUtf8? name, ← Utf8Text.ofUtf8? value)

/-- The variables in a block of them, each of which ends in a zero. What is no text is left out. -/
def environmentOf (block : Bytes) : Environment := (block.splitOn 0).filterMap entry?

def userNumber? (status : String) : Option String :=
  (status.splitOn "\n").findSome? fun line =>
    match line.splitOn "\t" with
    | "Uid:" :: number :: _ => some number
    | _ => none

/-- The home directory that the lines of a user database give for the number of a user. -/
def homeOf? (database number : String) : Option Bytes :=
  let records := (database.splitOn "\n").map (·.splitOn ":")
  match records.find? fun fields => fields[2]? = some number with
  | some fields => (fields[5]?.filter (· ≠ "")).map Utf8Text.utf8
  | none => none

def readEnvironment : IO Environment := do
  return environmentOf (← IO.FS.readBinFile "/proc/self/environ").toList

def readAccountHome : IO (Option Bytes) :=
  try
    let number := userNumber? (← IO.FS.readFile "/proc/self/status")
    return number.bind (homeOf? (← IO.FS.readFile "/etc/passwd"))
  catch _ => return none

def readContent (file : ListedFile) : IO (Option Bytes) :=
  match file.kind with
  | .file =>
    try
      return some (← IO.FS.readBinFile file.path).toList
    catch _ => return none
  | .directory | .link _ | .special => return none

def writeLog (path : Bytes) (lines : String) : IO Unit := do
  if let some directory := FileSystem.directoryOf? path then
    if !directory.isEmpty then IO.FS.createDirAll (Utf8Text.lossy directory)
  let handle ← IO.FS.Handle.mk (Utf8Text.lossy path) .append
  handle.putStr lines

end HashedTree.Main

open HashedTree HashedTree.Main in
def main (args : List String) : IO UInt32 := do
  let listed := FileListing.ofText (← (← IO.getStdin).readToEnd)
  let files ← listed.mapM fun file => return (file, ← readContent file)
  let fs := FileListing.fileSystem (Utf8Text.utf8 (← IO.currentDir).toString) files
  let clock : LogClock := ⟨toString (← IO.monoMsNow), "0"⟩
  let platform := Platform.plain (← readAccountHome)
  let result := Session.run platform fs (← readEnvironment) clock (args.map Utf8Text.utf8)
  IO.print result.stdout
  IO.eprint result.stderr
  if let some (path, lines) := result.logged then writeLog path lines
  return UInt32.ofNat result.code
