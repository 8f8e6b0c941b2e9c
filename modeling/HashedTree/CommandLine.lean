import HashedTree.TreeCommands

/-! # Reading a command line

Arguments belong to the program up to the name of a command, and to the command behind it; the
options that concern the whole program may stand on either side, and the nearer one to the end
counts. An option takes the text behind its `=`, or else the next argument, unless that looks like
an option itself. Behind `--` every argument is taken as it is. A value is examined when the next
argument shows that it is complete.
-/
namespace HashedTree
open ByteBlocks

/-- Why a command line is refused, or why help is shown in place of an answer. -/
inductive CommandLineError where
  | displayHelp
  | displayHelpOnMissingCommand
  | missingCommand
  | invalidCommand
  | unknownArgument
  | missingRequiredArgument
  | invalidValue
  | argumentConflict
  | tooManyValues
  | invalidUtf8
  deriving DecidableEq, Repr

def CommandLineError.exitCode : CommandLineError → Nat
  | .displayHelp => 0
  | _ => 2

def usage : String :=
  "Usage: dirtree [OPTIONS] build <PATH> [--format <FORMAT>] [--pretty]\n" ++
    "       dirtree [OPTIONS] hash <PATH>\n" ++
    "       dirtree [OPTIONS] lookup <PATH> <ENTRY> [--format <FORMAT>]\n" ++
    "Options: --config <FILE>, --verbose, --log-level <LEVEL>, --log-format <FORMAT>,\n" ++
    "         --log-output <OUTPUT>, --log-file <FILE>"

def CommandLineError.text (error : CommandLineError) : String :=
  let cause := match error with
    | .displayHelp | .displayHelpOnMissingCommand => ""
    | .missingCommand => "error: no command is given\n"
    | .invalidCommand => "error: there is no such command\n"
    | .unknownArgument => "error: an argument is not expected\n"
    | .missingRequiredArgument => "error: an argument is missing\n"
    | .invalidValue => "error: an option has no value\n"
    | .argumentConflict => "error: an argument is given twice\n"
    | .tooManyValues => "error: an option takes no value\n"
    | .invalidUtf8 => "error: an argument is no text\n"
  cause ++ usage

/-- What a command line asks for. -/
structure CommandLine where
  command : TreeCommand
  config : Option Bytes
  verbose : Bool
  logLevel : Option String
  logFormat : Option String
  logOutput : Option String
  logFile : Option Bytes
  deriving DecidableEq

namespace CommandLine

/-- What an argument may hold: nothing, a path that is not empty, or text. -/
inductive Content where
  | flag
  | path
  | text
  deriving DecidableEq, Repr

/-- An argument by name, or by the place among those without a name. -/
structure Argument where
  name : String
  content : Content
  named : Bool
  deriving DecidableEq, Repr

/-- What may follow the program's name, or the name of a command. -/
structure Level where
  options : List Argument
  positionals : List Argument
  commands : List String

def option (name : String) (content : Content) : Argument := ⟨name, content, true⟩

def positional (name : String) (content : Content) : Argument := ⟨name, content, false⟩

def globalOptions : List Argument :=
  [option "config" .path, option "verbose" .flag, option "log-level" .text,
    option "log-format" .text, option "log-output" .text, option "log-file" .path]

def programLevel : Level := ⟨globalOptions, [], ["build", "hash", "lookup", "help"]⟩

def commandLevel (name : String) : Level :=
  let path := positional "path" .path
  if name = "build" then
    ⟨globalOptions ++ [option "format" .text, option "pretty" .flag], [path], []⟩
  else if name = "hash" then ⟨globalOptions, [path], []⟩
  else ⟨globalOptions ++ [option "format" .text], [path, positional "entry" .text], []⟩

/-- An argument whose value is not yet examined; an option may still wait for its value. -/
structure Pending where
  argument : Argument
  value : Option Bytes

/-- How far one level has been read. -/
structure Progress where
  values : List (String × Bytes) := []
  pending : Option Pending := none
  placed : Nat := 0
  literal : Bool := false

def Progress.awaiting (p : Progress) : Bool :=
  match p.pending with
  | some ⟨_, none⟩ => true
  | _ => false

/-- Keeps a value that its argument admits; no argument is given twice. -/
def Progress.accept (p : Progress) (a : Argument) (value : Bytes) :
    Except CommandLineError Progress :=
  if p.values.any (·.1 = a.name) then .error .argumentConflict
  else
    let kept : Progress := { p with values := p.values ++ [(a.name, value)], pending := none }
    match a.content with
    | .flag => .ok kept
    | .path => if value.isEmpty then .error .invalidValue else .ok kept
    | .text => if (Utf8Text.ofUtf8? value).isNone then .error .invalidUtf8 else .ok kept

def Progress.settle (p : Progress) : Except CommandLineError Progress :=
  match p.pending with
  | none => .ok p
  | some ⟨_, none⟩ => .error .invalidValue
  | some ⟨a, some value⟩ => p.accept a value

/-- The name of an option and the text behind its `=`, if there is one. -/
def splitAtEquals : Bytes → Bytes × Option Bytes
  | [] => ([], none)
  | b :: rest =>
    if b = 61 then ([], some rest)
    else
      let (name, value) := splitAtEquals rest
      (b :: name, value)

def Level.find? (level : Level) (name : Bytes) : Option Argument :=
  level.options.find? fun a => Utf8Text.utf8 a.name = name

def readOption (level : Level) (p : Progress) (text : Bytes) : Except CommandLineError Progress :=
  let (name, value) := splitAtEquals text
  if name = Utf8Text.utf8 "help" then
    match value with
    | some _ => .error .tooManyValues
    | none => p.settle.bind fun _ => .error .displayHelp
  else
    match level.find? name with
    | none => .error .unknownArgument
    | some a =>
      match a.content, value with
      | .flag, some _ => .error .tooManyValues
      | .flag, none => p.settle.bind (·.accept a [])
      | _, some value => p.settle.bind (·.accept a value)
      | _, none => p.settle.map ({ · with pending := some ⟨a, none⟩ })

def readPositional (level : Level) (p : Progress) (arg : Bytes) : Except CommandLineError Progress :=
  match level.positionals[p.placed]? with
  | some a => p.settle.map ({ · with pending := some ⟨a, some arg⟩, placed := p.placed + 1 })
  | none =>
    if level.commands.isEmpty then .error .unknownArgument
    else if p.literal ∧ level.commands.any (fun c => Utf8Text.utf8 c = arg) then
      .error .unknownArgument
    else .error .invalidCommand

/-- The arguments of one level, up to the name of a command and what follows it. -/
def readLevel (level : Level) (p : Progress) :
    List Bytes → Except CommandLineError (Progress × Option (String × List Bytes))
  | [] => .ok (p, none)
  | arg :: rest =>
    if p.literal then (readPositional level p arg).bind fun p => readLevel level p rest
    else
      match if p.awaiting then none
          else level.commands.find? (fun c => Utf8Text.utf8 c = arg) with
      | some command => .ok (p, some (command, rest))
      | none =>
        match arg with
        | [45, 45] => readLevel level { p with literal := true } rest
        | 45 :: 45 :: text => (readOption level p text).bind fun p => readLevel level p rest
        | 45 :: letter :: _ =>
          if letter = 104 then p.settle.bind fun _ => .error .displayHelp
          else .error .unknownArgument
        | _ =>
          match p.pending with
          | some ⟨a, none⟩ => readLevel level { p with pending := some ⟨a, some arg⟩ } rest
          | _ => (readPositional level p arg).bind fun p => readLevel level p rest

def helpFor : List Bytes → CommandLineError
  | [] => .displayHelp
  | name :: rest =>
    if programLevel.commands.any (fun c => Utf8Text.utf8 c = name) ∧ rest.isEmpty then .displayHelp
    else .invalidCommand

abbrev Values := List (String × Bytes)

def Values.find? (values : Values) (name : String) : Option Bytes :=
  (List.find? (·.1 = name) values).map Prod.snd

def Values.text? (values : Values) (name : String) : Option String :=
  (values.find? name).map fun v => (Utf8Text.ofUtf8? v).getD ""

/-- The values behind the name of a command; every argument without a name is required. -/
def readCommand (name : String) (args : List Bytes) : Except CommandLineError Values :=
  (readLevel (commandLevel name) {} args).bind fun (p, _) =>
    p.settle.bind fun p =>
      if (commandLevel name).positionals.all fun a => p.values.any (·.1 = a.name) then .ok p.values
      else .error .missingRequiredArgument

def commandOf (name : String) (values : Values) : TreeCommand :=
  let path := (values.find? "path").getD []
  if name = "build" then .build path (values.text? "format") (values.find? "pretty").isSome
  else if name = "hash" then .hash path
  else .lookup path ((values.text? "entry").getD "") (values.text? "format")

/-- The command line with its values; those of the command stand in front. -/
def ofValues (name : String) (values : Values) : CommandLine where
  command := commandOf name values
  config := values.find? "config"
  verbose := (values.find? "verbose").isSome
  logLevel := values.text? "log-level"
  logFormat := values.text? "log-format"
  logOutput := values.text? "log-output"
  logFile := values.find? "log-file"

def parse (args : List Bytes) : Except CommandLineError CommandLine :=
  (readLevel programLevel {} args).bind fun (p, command) =>
    match command with
    | none =>
      p.settle.bind fun p =>
        .error (if p.values.isEmpty then .displayHelpOnMissingCommand else .missingCommand)
    | some (name, rest) =>
      if name = "help" then .error (helpFor rest)
      else
        (readCommand name rest).bind fun inner =>
          p.settle.map fun p => ofValues name (inner ++ p.values)

end CommandLine
end HashedTree
