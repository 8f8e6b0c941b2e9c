import HashedTree.FileSystemChanges
import HashedTree.LogRecord
import HashedTree.Environment

/-! # Where and how events are logged

The environment stands before the settings: it may give a filter, the form of the lines, where they
go, and further directives. Directives of the settings and the environment are added only to the
filter of the settings, and not if that is closed.
-/
namespace HashedTree
open ByteBlocks

/-- Where a log goes. -/
inductive LogSink where
  | stdout
  | stderr
  | file
  deriving DecidableEq, Repr

/-- The form of the lines of a log. -/
inductive LogForm where
  | text
  | documents
  deriving DecidableEq, Repr

structure LogSetup where
  filter : LogFilter
  form : LogForm
  sink : LogSink
  colors : Bool
  file : Bytes

namespace LogSetup

def formOf (name : String) : Except SettingFault LogForm :=
  if name = "json" then .ok .documents
  else if name = "text" then .ok .text
  else .error (.logFormat name)

def sinkOf (name : String) : Except SettingFault LogSink :=
  if name = "stdout" then .ok .stdout
  else if name = "stderr" then .ok .stderr
  else if name = "file" then .ok .file
  else .error (.logOutput name)

def addDirectives (complaint : String) (filter : LogFilter) (table : List (String × String)) :
    Except CommandError LogFilter :=
  table.foldlM (fun filter (target, level) =>
    match LogDirective.parse (target ++ "=" ++ level).toList with
    | .ok d => .ok (filter.add d)
    | .error fault => .error (.configuration (complaint ++ ": " ++ fault.text))) filter

private def trimmed (text : List Char) : String := String.ofList (CharacterClasses.trim text)

/-- The targets and levels between the commas of a text. What has no equals sign is passed over. -/
def tableOf (text : String) : List (String × String) :=
  (text.toList.splitOn ',').filterMap fun part =>
    let target := part.takeWhile (· ≠ '=')
    if target.length = part.length then none
    else some (trimmed target, trimmed (part.drop (target.length + 1)))

def environmentFilter? (environment : Environment) : Option LogFilter :=
  (environment.get? "DIRTREE_LOG").bind fun text => (LogFilter.parse text).toOption

/-- The notices given while a filter is made, and the filter. -/
structure FilterMaking where
  notices : List String
  result : Except CommandError LogFilter

def notice (part : String) (fault : DirectiveFault) : String :=
  "ignoring \x60" ++ part ++ "\x60: " ++ fault.text

def makeFilter (environment : Environment) (settings : LoggingSettings) : FilterMaking :=
  match environmentFilter? environment with
  | some filter => ⟨[], .ok filter⟩
  | none =>
    if settings.level = "off" then ⟨[], .ok .closed⟩
    else
      let (filter, refused) := LogFilter.parseLeniently settings.level
      let further := ((environment.get? "DIRTREE_LOG_MODULES").map tableOf).getD []
      ⟨refused.map fun (part, fault) => notice part fault,
        (addDirectives "Invalid log directive" filter settings.modules).bind fun filter =>
          addDirectives "Invalid log directive from env" filter further⟩

/-- The notices given while logging is prepared, and the setup. -/
structure Preparation where
  notices : List String
  result : Except CommandError LogSetup

/-- Prepares logging. Colors are for text that goes to no file. -/
def prepare (environment : Environment) (settings : LoggingSettings) : Preparation :=
  let making := makeFilter environment settings
  let form := formOf ((environment.get? "DIRTREE_LOG_FORMAT").getD settings.format)
  let sink := sinkOf ((environment.get? "DIRTREE_LOG_OUTPUT").getD settings.output)
  let asConfiguration (fault : SettingFault) : CommandError := .configuration fault.text
  ⟨making.notices, do
    let filter ← making.result
    let form ← form.mapError asConfiguration
    let sink ← sink.mapError asConfiguration
    return ⟨filter, form, sink, settings.color && decide (sink ≠ .file), settings.file⟩⟩

def openFile (fs : FileSystem) (file : Bytes) : Except CommandError FileSystem := do
  let fs ← match FileSystem.directoryOf? file with
    | none => .ok fs
    | some directory =>
      match fs.makeDirectories directory with
      | ⟨fs, none⟩ => .ok fs
      | ⟨_, some cause⟩ =>
        .error (.configuration ("Failed to create log directory: " ++ cause.text))
  (fs.appendContent file []).mapError fun cause =>
    .configuration
      ("Failed to open log file " ++ QuotedText.quotedPath file ++ ": " ++ cause.text)

def opened (setup : LogSetup) (fs : FileSystem) : Except CommandError FileSystem :=
  match setup.sink with
  | .file => openFile fs setup.file
  | .stdout | .stderr => .ok fs

/-- The setup that was prepared, and the files once its log file is open. -/
def Preparation.start (preparation : Preparation) (fs : FileSystem) :
    Except CommandError (LogSetup × FileSystem) :=
  preparation.result.bind fun setup => (setup.opened fs).map (setup, ·)

/-- The line for an event, unless the filter keeps it back. -/
def line? (setup : LogSetup) (clock : LogClock) (event : ProgramEvent) : Option String :=
  ((LogRecord.ofProgramEvent clock event).filtered? setup.filter).map fun record =>
    match setup.form with
    | .text => record.textLine setup.colors clock
    | .documents => record.documentLine clock

def lines (setup : LogSetup) (clock : LogClock) (events : List ProgramEvent) : String :=
  String.join (events.filterMap (setup.line? clock))

/-- The file that the log goes to, if it goes to one. -/
def logFile? (setup : LogSetup) : Option Bytes :=
  match setup.sink with
  | .file => some setup.file
  | .stdout | .stderr => none

theorem logFile?_eq_some {setup : LogSetup} {file : Bytes} :
    setup.logFile? = some file ↔ setup.sink = .file ∧ setup.file = file := by
  rw [logFile?]
  cases setup.sink <;> simp

theorem logFile?_eq_none {setup : LogSetup} : setup.logFile? = none ↔ setup.sink ≠ .file := by
  rw [logFile?]
  cases setup.sink <;> simp

end LogSetup
end HashedTree
