import HashedTree.CommandLine
import HashedTree.ConfigurationLayers
import HashedTree.LogSetup

/-! # One run of the program

The command line is read first, then the settings, then logging is set up, and then the command is
performed. Nothing is logged unless the command line asks for it; the environment's own filter is the
exception.
-/
namespace HashedTree
open ByteBlocks

/-- What a run leaves behind: its exit code, what it wrote, the file system, and the log file with
the lines that went there. -/
structure SessionResult where
  code : Nat
  stdout : String
  stderr : String
  files : FileSystem
  logged : Option (Bytes × String) := none

/-- Why a run ends before its command. -/
inductive Refusal where
  | commandLine (error : CommandLineError)
  | configuration (fault : ConfigurationFault)

namespace Session

def logsRequested (line : CommandLine) : Bool :=
  line.verbose || line.logLevel.isSome || line.logFormat.isSome || line.logOutput.isSome ||
    line.logFile.isSome

/-- The settings of logging that are in force: those of the command line, then those loaded. -/
def loggingSettings (line : CommandLine) (loaded : LoggingSettings) : LoggingSettings :=
  if logsRequested line then
    { loaded with
      level := line.logLevel.getD loaded.level
      format := line.logFormat.getD loaded.format
      output := line.logOutput.getD loaded.output
      file := line.logFile.getD loaded.file }
  else { loaded with level := "off" }

/-- The settings for a command line. A file that it names stands in for the global one. -/
def loadSettings (platform : Platform) (fs : FileSystem) (environment : Environment)
    (line : CommandLine) : Except ConfigurationFault Settings :=
  match line.config with
  | some path => ConfigurationLayers.loadFrom platform fs environment path
  | none => ConfigurationLayers.load platform fs environment

/-- What a run does before its command: it reads the command line and loads the settings. -/
def begin? (platform : Platform) (fs : FileSystem) (environment : Environment)
    (args : List Bytes) : Except Refusal (CommandLine × Settings) :=
  ((CommandLine.parse args).mapError .commandLine).bind fun line =>
    ((loadSettings platform fs environment line).mapError .configuration).map (line, ·)

private def asLine (text : String) : String := text ++ "\n"

def refused (fs : FileSystem) : Refusal → SessionResult
  | .commandLine error =>
    let text := asLine error.text
    if error.exitCode = 0 then { code := 0, stdout := text, stderr := "", files := fs }
    else { code := error.exitCode, stdout := "", stderr := text, files := fs }
  | .configuration fault =>
    { code := 1, stdout := "", stderr := asLine (CommandError.configuration fault.text).report,
      files := fs }

/-- Writes the line for an event to where the log goes. -/
def note (clock : LogClock) (setup : LogSetup) (soFar : SessionResult) (event : ProgramEvent) :
    SessionResult :=
  match setup.line? clock event with
  | none => soFar
  | some line =>
    match setup.sink with
    | .stdout => { soFar with stdout := soFar.stdout ++ line }
    | .stderr => { soFar with stderr := soFar.stderr ++ line }
    | .file =>
      match soFar.files.appendContent setup.file (Utf8Text.utf8 line) with
      | .ok files =>
        let logged := soFar.logged.map fun (file, lines) => (file, lines ++ line)
        { soFar with files, logged }
      | .error _ => soFar

/-- What the log has added to the file at a path, since the program started, by the time that these
events of a build are noted. -/
def growth (fs : FileSystem) (clock : LogClock) (setup : LogSetup) (root : Bytes) : Growth :=
  fun noted path =>
    match setup.logFile? with
    | some file =>
      if fs.leadAlike path file then
        Utf8Text.utf8 (setup.lines clock (.starting :: noted.map (.duringBuild root)))
      else []
    | none => []

def lastEvent : Except CommandError String → ProgramEvent
  | .ok _ => .succeeded
  | .error error => .failed error

/-- Performs a command with its log. Each line is written when its event happens, so a command may
come across those that are already in the log file. -/
def performed (fs : FileSystem) (clock : LogClock) (setup : LogSetup) (settings : OutputSettings)
    (command : TreeCommand) : SessionResult :=
  let performance := command.performAmid (growth fs clock setup command.path) fs settings
  let events := .starting :: performance.events ++ [lastEvent performance.result]
  let result := events.foldl (note clock setup)
    { code := 0, stdout := "", stderr := "", files := fs, logged := setup.logFile?.map (·, "") }
  match performance.result with
  | .ok text => { result with stdout := result.stdout ++ asLine text }
  | .error error => { result with code := 1, stderr := result.stderr ++ asLine error.report }

def continued (fs : FileSystem) (environment : Environment) (clock : LogClock) (line : CommandLine)
    (settings : Settings) : SessionResult :=
  let preparation := LogSetup.prepare environment (loggingSettings line settings.logging)
  let notices := String.join (preparation.notices.map asLine)
  match preparation.start fs with
  | .error error =>
    { code := 1, stdout := "",
      stderr := notices ++ asLine ("Failed to initialize logging: " ++ error.text), files := fs }
  | .ok (setup, fs) =>
    let result := performed fs clock setup settings.output line.command
    { result with stderr := notices ++ result.stderr }

def run (platform : Platform) (fs : FileSystem) (environment : Environment) (clock : LogClock)
    (args : List Bytes) : SessionResult :=
  match begin? platform fs environment args with
  | .error refusal => refused fs refusal
  | .ok (line, settings) => continued fs environment clock line settings

end Session
end HashedTree
