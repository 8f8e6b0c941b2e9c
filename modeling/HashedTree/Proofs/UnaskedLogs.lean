import HashedTree.Session
import HashedTree.Proofs.CommandAgreement
import HashedTree.Proofs.GrowingFiles
import HashedTree.Proofs.LogPreparation

/-!
# Logs that nobody asked for

A command line that does not ask for a log closes the filter of the settings. What is left of the
log is what the environment demands: its own filter, its form, its destination. Where these are
known names, what its filter lets through does not go where the answer goes, and the command does not
come across a log file that is made or grows, a run prints the answer of its command and ends as this
does, whatever is set up about logging. But a log file is made although nobody asked for a log, and
where it becomes a part of the tree, it shows.
-/
namespace HashedTree.UnaskedLogs
open ByteBlocks GrowingFiles LogSetup Outcomes Session Utf8Text

/-! ### Filters that let nothing pass -/

def Mute (filter : LogFilter) : Prop :=
  ∀ span level target fields, filter.logs span level target fields = false

section Filters
variable {filter : LogFilter}

theorem rank_ne_zero (level : LogLevel) : level.rank ≠ 0 := by cases level <;> decide

theorem foldl_max_of_zeros {ranks : List Nat} (h : ∀ rank ∈ ranks, rank = 0) :
    ranks.foldl max 0 = 0 := by
  induction ranks with
  | nil => rfl
  | cons rank ranks ih =>
    obtain ⟨rfl, zeros⟩ := List.forall_mem_cons.mp h
    exact ih zeros

/-- A filter is mute if all its directives are off. -/
theorem mute_of_off (events : ∀ d ∈ filter.ofEvents, d.threshold = none)
    (spans : ∀ d ∈ filter.ofSpans, d.threshold = none) : Mute filter := by
  intro span level target fields
  have nothingPasses : filter.passes level target fields = false := by
    rw [LogFilter.passes]
    split
    case h_1 d found =>
      have off : d.threshold = none := events d (List.mem_of_find?_eq_some found)
      simp [off, LogThreshold.admits, LogThreshold.rank, rank_ne_zero]
    case h_2 => rfl
  have nothingInside (s : LogSpan) : filter.rankInside s = 0 := by
    refine foldl_max_of_zeros fun rank hrank => ?_
    obtain ⟨d, hd, rfl⟩ := List.mem_map.mp hrank
    have off : d.threshold = none :=
      spans d (List.mem_of_mem_filter (List.mem_of_mem_filter hd))
    rw [off]
    rfl
  simp [LogFilter.logs, nothingPasses, nothingInside, rank_ne_zero]

theorem mute_closed : Mute .closed := mute_of_off (by decide) (by decide)

theorem line?_of_mute {setup : LogSetup} (mute : Mute setup.filter) (clock : LogClock)
    (event : ProgramEvent) : setup.line? clock event = none := by
  rw [line?, LogRecord.filtered?, mute]
  rfl

/-- The log of a mute filter is empty. -/
theorem lines_of_mute {setup : LogSetup} (mute : Mute setup.filter) (clock : LogClock)
    (events : List ProgramEvent) : setup.lines clock events = "" := by
  rw [lines, List.filterMap_eq_nil_iff.mpr fun event _ => line?_of_mute mute clock event]
  rfl

end Filters

/-! ### The setup of a log that nobody asked for -/

/-- A command line has none of the options that concern logging. -/
structure SaysNothing (line : CommandLine) : Prop where
  verbose : line.verbose = false
  level : line.logLevel = none
  format : line.logFormat = none
  output : line.logOutput = none
  file : line.logFile = none

def switchedOff (logging : LoggingSettings) : LoggingSettings := { logging with level := "off" }

theorem loggingSettings_eq {line : CommandLine} (h : SaysNothing line)
    (logging : LoggingSettings) : loggingSettings line logging = switchedOff logging := by
  have notRequested : logsRequested line = false := by
    simp [logsRequested, h.verbose, h.level, h.format, h.output, h.file]
  rw [loggingSettings, notRequested]
  rfl

theorem makeFilter_switchedOff (environment : Environment) (logging : LoggingSettings) :
    makeFilter environment (switchedOff logging) =
      ⟨[], .ok ((environmentFilter? environment).getD .closed)⟩ := by
  rw [makeFilter]
  cases environmentFilter? environment with
  | some filter => rfl
  | none => rfl

/-- None of the files that a build from `path` reads is the log file. -/
def Aside (fs : FileSystem) (path log : Bytes) : Prop :=
  ∀ directory, fs.lookup true path = .ok directory →
    ∀ file ∈ filesBeneath path directory, fs.leadAlike file log = false

/-- What a run needs so that its log cannot meddle with the command on `path`: the environment names
a known form and destination, if any; its own filter is mute if the log goes where the answer goes;
and a log file can be opened without a change to the tree at `path`, and does not grow under it. -/
structure Discreet (fs : FileSystem) (environment : Environment) (logging : LoggingSettings)
    (path : Bytes) : Prop where
  form : ∀ name ∈ environment.get? "DIRTREE_LOG_FORMAT", name ∈ logFormats
  sink : ∀ name ∈ environment.get? "DIRTREE_LOG_OUTPUT", name ∈ logOutputs
  apart : sinkName environment logging = "stdout" →
    ∀ filter ∈ environmentFilter? environment, Mute filter
  opens : sinkName environment logging = "file" → ∃ files, openFile fs logging.file = .ok files ∧
    buildTree files .chunked path = buildTree fs .chunked path ∧
    ((∀ filter ∈ environmentFilter? environment, Mute filter) ∨ Aside files path logging.file)

theorem mute_getD {own : Option LogFilter} (h : ∀ filter ∈ own, Mute filter) :
    Mute (own.getD .closed) := by
  cases own with
  | none => exact mute_closed
  | some filter => exact h filter rfl

theorem getD_mem {found : Option String} {default : String} {names : List String}
    (h : ∀ name ∈ found, name ∈ names) (hdefault : default ∈ names) :
    found.getD default ∈ names := by
  cases found with
  | none => exact hdefault
  | some name => exact h name rfl

section Starting
variable {fs : FileSystem} {environment : Environment} {logging : LoggingSettings} {path : Bytes}

/-- The log starts with the filter of the environment, or else with a closed one, and leaves the
files as they are if it goes to none. -/
theorem exists_start (valid : logging.fault? = none)
    (discreet : Discreet fs environment logging path) :
    ∃ setup files, (prepare environment (switchedOff logging)).start fs = .ok (setup, files) ∧
      setup.filter = (environmentFilter? environment).getD .closed ∧ setup.file = logging.file ∧
      sinkOf (sinkName environment logging) = .ok setup.sink ∧ setup.opened fs = .ok files := by
  have known : ¬logging.fault?.isSome := by simp [valid]
  rw [fault?_isSome_iff, not_or, not_or, not_not, not_not, not_not] at known
  obtain ⟨-, knownForm, knownSink⟩ := known
  have made := congrArg FilterMaking.result (makeFilter_switchedOff environment logging)
  obtain ⟨⟨setup, files⟩, started⟩ :
      ∃ started, (prepare environment (switchedOff logging)).start fs = .ok started := by
    refine exists_start_iff.mpr ⟨⟨_, made⟩, ?_, ?_, fun toFile => ?_⟩
    · exact getD_mem discreet.form knownForm
    · exact getD_mem discreet.sink knownSink
    · obtain ⟨files, hopened, -⟩ := discreet.opens toFile
      exact ⟨files, hopened⟩
  obtain ⟨filter, form, sink, hfilter, -, hsink, rfl, hopened⟩ := start_eq_ok_iff.mp started
  exact ⟨_, files, started, Except.ok.inj (hfilter.symm.trans made), rfl, hsink, hopened⟩

theorem files_of_opened {setup : LogSetup} {files : FileSystem} (noFile : setup.sink ≠ .file)
    (hopened : setup.opened fs = .ok files) : files = fs := by
  rw [opened] at hopened
  split at hopened
  · next toFile => exact absurd toFile noFile
  · exact (Except.ok.inj hopened).symm
  · exact (Except.ok.inj hopened).symm

/-- Once its log is open, a run finds the same tree, and the log does not grow under it. -/
theorem tree_of_opened {setup : LogSetup} {files : FileSystem}
    (discreet : Discreet fs environment logging path)
    (hfilter : setup.filter = (environmentFilter? environment).getD .closed)
    (hfile : setup.file = logging.file)
    (hsink : sinkOf (sinkName environment logging) = .ok setup.sink)
    (hopened : setup.opened fs = .ok files) :
    buildTree files .chunked path = buildTree fs .chunked path ∧
      (setup.sink = .file → Mute setup.filter ∨ Aside files path setup.file) := by
  by_cases toFile : setup.sink = .file
  · rw [toFile] at hsink
    obtain ⟨found, hfound, sameTree, quiet⟩ := discreet.opens (sinkOf_eq_ok_iff.mp hsink)
    rw [opened, toFile, hfile] at hopened
    obtain rfl := Except.ok.inj (hfound.symm.trans hopened)
    refine ⟨sameTree, fun _ => ?_⟩
    obtain mute | aside := quiet
    · exact .inl (hfilter ▸ mute_getD mute)
    · exact .inr (hfile ▸ aside)
  · rw [files_of_opened toFile hopened]
    exact ⟨rfl, fun h => absurd h toFile⟩

end Starting

/-! ### What is noted on the way -/

section Noting
variable {fs : FileSystem} {clock : LogClock} {setup : LogSetup} {soFar : SessionResult}
  {event : ProgramEvent} {root path : Bytes}

theorem note_code : (note clock setup soFar event).code = soFar.code := by
  rw [note]
  split
  · rfl
  · split
    · rfl
    · rfl
    · split <;> rfl

theorem note_stdout (h : setup.sink = .stdout → Mute setup.filter) :
    (note clock setup soFar event).stdout = soFar.stdout := by
  rw [note]
  split
  · rfl
  · next line passes =>
    split
    · next toStdout =>
      rw [line?_of_mute (h toStdout)] at passes
      cases passes
    · rfl
    · split <;> rfl

theorem note_files (h : setup.sink ≠ .file) :
    (note clock setup soFar event).files = soFar.files ∧
      (note clock setup soFar event).logged = soFar.logged := by
  rw [note]
  split
  · exact ⟨rfl, rfl⟩
  · split
    · exact ⟨rfl, rfl⟩
    · exact ⟨rfl, rfl⟩
    · next toFile => exact absurd toFile h

/-- What no line changes is the same after all of them. -/
theorem foldl_note {α : Type} (observed : SessionResult → α)
    (kept : ∀ soFar event, observed (note clock setup soFar event) = observed soFar)
    (events : List ProgramEvent) (start : SessionResult) :
    observed (events.foldl (note clock setup) start) = observed start := by
  induction events generalizing start with
  | nil => rfl
  | cons event events ih => rw [List.foldl_cons, ih, kept]

theorem growth_of_no_file (h : setup.sink ≠ .file) : growth fs clock setup root = .none := by
  funext noted path
  rw [growth, logFile?_eq_none.mpr h]
  rfl

theorem growth_of_mute (mute : Mute setup.filter) : growth fs clock setup root = .none := by
  funext noted path
  rw [growth]
  split
  · split
    · rw [lines_of_mute mute]
      rfl
    · rfl
  · rfl

theorem growth_of_aside {file : Bytes} (h : fs.leadAlike file setup.file = false)
    (noted : List BuildEvent) : growth fs clock setup root noted file = [] := by
  rw [growth]
  split
  · next log hlog =>
    obtain ⟨-, rfl⟩ := logFile?_eq_some.mp hlog
    rw [h]
    rfl
  · rfl

/-- The log does not grow under the command: it goes to no file, or nothing passes, or the command
reads other files. -/
theorem performAmid_growth {settings : OutputSettings} {command : TreeCommand}
    (h : setup.sink = .file → Mute setup.filter ∨ Aside fs command.path setup.file) :
    (command.performAmid (growth fs clock setup command.path) fs settings).result =
      command.execute fs settings := by
  rw [TreeCommand.execute, TreeCommand.performAmid, TreeCommand.performAmid]
  have idle : ∀ directory, fs.lookup true command.path = .ok directory →
      Idle (growth fs clock setup command.path) (filesBeneath command.path directory) := by
    intro directory found file hfile noted
    by_cases toFile : setup.sink = .file
    · obtain mute | aside := h toFile
      · rw [growth_of_mute mute]
        rfl
      · exact growth_of_aside (aside directory found file hfile) noted
    · rw [growth_of_no_file toFile]
      rfl
  rw [buildAmid_of_idle idle]

end Noting

/-! ### What a run leaves behind -/

/-- What a command leaves behind without a log. -/
def answer (fs : FileSystem) : Except CommandError String → SessionResult
  | .ok text => { code := 0, stdout := text ++ "\n", stderr := "", files := fs }
  | .error error => { code := 1, stdout := "", stderr := error.report ++ "\n", files := fs }

section Running
variable {platform : Platform} {fs files : FileSystem} {environment : Environment}
  {clock : LogClock} {args : List Bytes} {line : CommandLine} {settings : Settings}
  {setup : LogSetup}

theorem performed_answers {output : OutputSettings} {command : TreeCommand}
    {outcome : Except CommandError String}
    (h : (command.performAmid (growth fs clock setup command.path) fs output).result = outcome)
    (apart : setup.sink = .stdout → Mute setup.filter) :
    (performed fs clock setup output command).code = (answer fs outcome).code ∧
      (performed fs clock setup output command).stdout = (answer fs outcome).stdout ∧
      (setup.sink ≠ .file → (performed fs clock setup output command).files = fs ∧
        (performed fs clock setup output command).logged = none) := by
  have code (events : List ProgramEvent) (start : SessionResult) :
      (events.foldl (note clock setup) start).code = start.code :=
    foldl_note _ (fun _ _ => note_code) events start
  have stdout (events : List ProgramEvent) (start : SessionResult) :
      (events.foldl (note clock setup) start).stdout = start.stdout :=
    foldl_note _ (fun _ _ => note_stdout apart) events start
  have files (noFile : setup.sink ≠ .file) (events : List ProgramEvent) (start : SessionResult) :
      (events.foldl (note clock setup) start).files = start.files :=
    foldl_note _ (fun _ _ => (note_files noFile).1) events start
  have logged (noFile : setup.sink ≠ .file) (events : List ProgramEvent) (start : SessionResult) :
      (events.foldl (note clock setup) start).logged = start.logged :=
    foldl_note _ (fun _ _ => (note_files noFile).2) events start
  simp only [performed, h]
  cases outcome with
  | ok text =>
    refine ⟨code _ _, congrArg (· ++ _) (stdout _ _), fun noFile => ⟨files noFile _ _, ?_⟩⟩
    rw [logged noFile, logFile?_eq_none.mpr noFile]
    rfl
  | error error =>
    refine ⟨rfl, stdout _ _, fun noFile => ⟨files noFile _ _, ?_⟩⟩
    rw [logged noFile, logFile?_eq_none.mpr noFile]
    rfl

theorem settingsOf_valid {file : List (String × SettingTree)}
    (h : ConfigurationLayers.settingsOf platform environment file = .ok settings) :
    settings.logging.fault? = none := by
  obtain ⟨read, -, checked⟩ := bind_eq_ok.mp h
  split at checked
  case isTrue fine =>
    obtain rfl := Except.ok.inj checked
    rw [Settings.complaints, List.isEmpty_iff, List.append_eq_nil_iff] at fine
    simpa using fine.1
  case isFalse => cases checked

/-- Settings that are loaded are valid. -/
theorem loadSettings_valid (h : loadSettings platform fs environment line = .ok settings) :
    settings.logging.fault? = none := by
  rw [loadSettings] at h
  split at h
  case h_1 path _ =>
    obtain ⟨layer, -, hsettings⟩ := bind_eq_ok.mp h
    exact settingsOf_valid hsettings
  case h_2 =>
    obtain ⟨layer, -, hsettings⟩ := bind_eq_ok.mp h
    exact settingsOf_valid hsettings

/-- A run comes to its command, and the command line does not ask for a log. -/
structure Unasked (platform : Platform) (fs : FileSystem) (environment : Environment)
    (args : List Bytes) (line : CommandLine) (settings : Settings) : Prop where
  begins : begin? platform fs environment args = .ok (line, settings)
  saysNothing : SaysNothing line

theorem Unasked.valid (h : Unasked platform fs environment args line settings) :
    settings.logging.fault? = none := by
  obtain ⟨read, -, loaded⟩ := bind_eq_ok.mp h.begins
  obtain ⟨found, hfound, same⟩ := map_eq_ok.mp loaded
  cases same
  exact loadSettings_valid (mapError_eq_ok.mp hfound)

theorem Unasked.run_eq (h : Unasked platform fs environment args line settings)
    (started : (prepare environment (switchedOff settings.logging)).start fs = .ok (setup, files)) :
    run platform fs environment clock args = performed files clock setup settings.output line.command := by
  have noNotices : (prepare environment (switchedOff settings.logging)).notices = [] :=
    congrArg FilterMaking.notices (makeFilter_switchedOff environment settings.logging)
  rw [run, h.begins]
  show continued fs environment clock line settings = _
  simp only [continued, loggingSettings_eq h.saysNothing, started, noNotices,
    List.map_nil, String.join_nil, String.empty_append]

theorem answer_code (outcome : Except CommandError String) :
    (answer files outcome).code = (answer fs outcome).code := by
  cases outcome <;> rfl

theorem answer_stdout (outcome : Except CommandError String) :
    (answer files outcome).stdout = (answer fs outcome).stdout := by
  cases outcome <;> rfl

theorem execute_of_same_tree {command : TreeCommand} {output : OutputSettings}
    (h : buildTree files .chunked command.path = buildTree fs .chunked command.path) :
    command.execute files output = command.execute fs output := by
  rw [CommandAgreement.execute_eq, CommandAgreement.execute_eq, h]

/-- A run prints the answer of its command and ends as this does. Without a log file it leaves the
files as they are. -/
theorem Unasked.run_answers (h : Unasked platform fs environment args line settings)
    (discreet : Discreet fs environment settings.logging line.command.path) (clock : LogClock) :
    (run platform fs environment clock args).code =
        (answer fs (line.command.execute fs settings.output)).code ∧
      (run platform fs environment clock args).stdout =
        (answer fs (line.command.execute fs settings.output)).stdout ∧
      (sinkName environment settings.logging ≠ "file" →
        (run platform fs environment clock args).files = fs ∧
          (run platform fs environment clock args).logged = none) := by
  obtain ⟨setup, files, started, hfilter, hfile, hsink, hopened⟩ := exists_start h.valid discreet
  have apart (toStdout : setup.sink = .stdout) : Mute setup.filter := by
    rw [toStdout] at hsink
    exact hfilter ▸ mute_getD (discreet.apart (sinkOf_eq_ok_iff.mp hsink))
  obtain ⟨sameTree, quiet⟩ := tree_of_opened discreet hfilter hfile hsink hopened
  obtain ⟨code, stdout, untouched⟩ := performed_answers
    ((performAmid_growth quiet).trans (execute_of_same_tree sameTree)) apart
  rw [h.run_eq started]
  refine ⟨code.trans (answer_code _), stdout.trans (answer_stdout _), fun noFile => ?_⟩
  have noSink : setup.sink ≠ .file := fun toFile =>
    noFile (sinkOf_eq_ok_iff.mp (toFile ▸ hsink))
  rw [files_of_opened noSink hopened] at untouched ⊢
  exact untouched noSink

end Running

/-- Two runs of one command on one tree, with any settings of logging, print the same and end alike:
as the command does by itself. Neither touches a file unless its log goes to one. -/
theorem runs_agree {platform₁ platform₂ : Platform} {fs₁ fs₂ : FileSystem}
    {environment₁ environment₂ : Environment} {args₁ args₂ : List Bytes}
    {line₁ line₂ : CommandLine} {settings₁ settings₂ : Settings}
    (unasked₁ : Unasked platform₁ fs₁ environment₁ args₁ line₁ settings₁)
    (unasked₂ : Unasked platform₂ fs₂ environment₂ args₂ line₂ settings₂)
    (sameCommand : line₁.command = line₂.command)
    (sameOutput : settings₁.output = settings₂.output)
    (sameTree : buildTree fs₁ .chunked line₁.command.path =
      buildTree fs₂ .chunked line₁.command.path)
    (discreet₁ : Discreet fs₁ environment₁ settings₁.logging line₁.command.path)
    (discreet₂ : Discreet fs₂ environment₂ settings₂.logging line₁.command.path)
    (clock₁ clock₂ : LogClock) :
    (run platform₁ fs₁ environment₁ clock₁ args₁).stdout =
        (run platform₂ fs₂ environment₂ clock₂ args₂).stdout ∧
      (run platform₁ fs₁ environment₁ clock₁ args₁).code =
        (run platform₂ fs₂ environment₂ clock₂ args₂).code ∧
      (run platform₁ fs₁ environment₁ clock₁ args₁).stdout =
        (answer fs₁ (line₁.command.execute fs₁ settings₁.output)).stdout ∧
      (run platform₁ fs₁ environment₁ clock₁ args₁).code =
        (answer fs₁ (line₁.command.execute fs₁ settings₁.output)).code ∧
      (sinkName environment₁ settings₁.logging ≠ "file" →
        (run platform₁ fs₁ environment₁ clock₁ args₁).files = fs₁ ∧
          (run platform₁ fs₁ environment₁ clock₁ args₁).logged = none) ∧
      (sinkName environment₂ settings₂.logging ≠ "file" →
        (run platform₂ fs₂ environment₂ clock₂ args₂).files = fs₂ ∧
          (run platform₂ fs₂ environment₂ clock₂ args₂).logged = none) := by
  rw [sameCommand] at discreet₂
  obtain ⟨code₁, stdout₁, files₁⟩ := unasked₁.run_answers discreet₁ clock₁
  obtain ⟨code₂, stdout₂, files₂⟩ := unasked₂.run_answers discreet₂ clock₂
  have sameOutcome : line₁.command.execute fs₁ settings₁.output =
      line₂.command.execute fs₂ settings₂.output := by
    rw [execute_of_same_tree sameTree, sameCommand, sameOutput]
  refine ⟨?_, ?_, stdout₁, code₁, files₁, files₂⟩
  · rw [stdout₁, stdout₂, sameOutcome]
    exact answer_stdout _
  · rw [code₁, code₂, sameOutcome]
    exact answer_code _

/-- A working directory with an empty directory and two files of settings: one turns logging on, the
other names a log file in the empty directory. -/
def chattySystem : FileSystem :=
  ⟨.directory 0o755 [(utf8 "r", .directory 0o755 []),
    (utf8 "c.toml", .file 0o644 (utf8 "[logging]\nlevel = \"trace\"\noutput = \"stdout\"\n")),
    (utf8 "f.toml", .file 0o644 (utf8 "[logging]\noutput = \"file\"\nfile = \"r/x.log\"\n"))],
    [], true⟩

def hashLine (config : Option Bytes) : CommandLine :=
  ⟨.hash (utf8 "r"), config, false, none, none, none, none⟩

theorem saysNothing_hashLine (config : Option Bytes) : SaysNothing (hashLine config) :=
  ⟨rfl, rfl, rfl, rfl, rfl⟩

def hashArgs : List Bytes := [utf8 "hash", utf8 "r"]

theorem unasked_of_toOption {platform : Platform} {fs : FileSystem} {environment : Environment}
    {args : List Bytes} {line : CommandLine} {settings : Settings}
    (begins : (begin? platform fs environment args).toOption = some (line, settings))
    (saysNothing : SaysNothing line) : Unasked platform fs environment args line settings :=
  ⟨Outcomes.toOption_eq_some.1 begins, saysNothing⟩

/-- The log of everything goes to the default file. -/
def chattyEnvironment : Environment :=
  [("DIRTREE_LOG", "trace"), ("DIRTREE_LOG_OUTPUT", "file"), ("DIRTREE_LOG_FORMAT", "json")]

def defaultFile : Bytes := utf8 "dirtree.log"

def chattySettings : Settings := ⟨⟨"trace", "text", "stdout", defaultFile, true, []⟩, .default⟩

theorem unasked_hash : Unasked (.plain none) chattySystem [] hashArgs (hashLine none)
    (.default defaultFile) :=
  unasked_of_toOption (by decide +kernel) (saysNothing_hashLine _)

theorem default_not_to_file : sinkName [] (LoggingSettings.default defaultFile) ≠ "file" := by
  decide +kernel

theorem discreet_default : Discreet chattySystem [] (.default defaultFile) (utf8 "r") where
  form := by decide
  sink := by decide
  apart _ filter hfilter := by cases hfilter
  opens toFile := absurd toFile default_not_to_file

theorem discreet_chatty :
    Discreet chattySystem chattyEnvironment chattySettings.logging (utf8 "r") where
  form := by decide +kernel
  sink := by decide +kernel
  apart toStdout := absurd toStdout (by decide +kernel)
  opens _ := by
    refine ⟨_, rfl, rfl, .inr fun directory found => ?_⟩
    obtain rfl : Inode.directory 0o755 [] = directory := Except.ok.inj found
    exact nofun

theorem chatty_runs_agree :
    Unasked (.plain none) chattySystem [] hashArgs (hashLine none) (.default defaultFile) ∧
      Unasked (.plain none) chattySystem chattyEnvironment (utf8 "--config=c.toml" :: hashArgs)
        (hashLine (some (utf8 "c.toml"))) chattySettings ∧
      Discreet chattySystem [] (.default defaultFile) (utf8 "r") ∧
      Discreet chattySystem chattyEnvironment chattySettings.logging (utf8 "r") ∧
      (run (.plain none) chattySystem [] ⟨"", ""⟩ hashArgs).stdout =
        (run (.plain none) chattySystem chattyEnvironment ⟨"", ""⟩
          (utf8 "--config=c.toml" :: hashArgs)).stdout ∧
      (run (.plain none) chattySystem [] ⟨"", ""⟩ hashArgs).stdout = Digest.zero.toHex ++ "\n" ∧
      (run (.plain none) chattySystem [] ⟨"", ""⟩ hashArgs).logged = none := by
  have unasked₂ : Unasked (.plain none) chattySystem chattyEnvironment
      (utf8 "--config=c.toml" :: hashArgs) (hashLine (some (utf8 "c.toml"))) chattySettings :=
    unasked_of_toOption (by decide +kernel) (saysNothing_hashLine _)
  obtain ⟨sameStdout, -, stdout, -, untouched, -⟩ := runs_agree unasked_hash unasked₂ rfl rfl rfl
    discreet_default discreet_chatty ⟨"", ""⟩ ⟨"", ""⟩
  have printed : (hashLine none).command.execute chattySystem .default = .ok Digest.zero.toHex :=
    rfl
  rw [Settings.default, printed] at stdout
  exact ⟨unasked_hash, unasked₂, discreet_default, discreet_chatty, sameStdout, stdout,
    (untouched default_not_to_file).2⟩

/-- What is observed of a run is the same whatever the environment and the settings say about a log
that nobody asked for. -/
def Irrelevant {α : Type} (observed : SessionResult → α) : Prop :=
  ∀ (platform : Platform) (fs : FileSystem) (environment₁ environment₂ : Environment)
    (clock : LogClock) (args₁ args₂ : List Bytes) (line₁ line₂ : CommandLine)
    (settings₁ settings₂ : Settings),
    Unasked platform fs environment₁ args₁ line₁ settings₁ →
    Unasked platform fs environment₂ args₂ line₂ settings₂ →
    line₁.command = line₂.command → settings₁.output = settings₂.output →
    (∀ name ∉ variableNames, environment₁.get? name = environment₂.get? name) →
    observed (run platform fs environment₁ clock args₁) =
      observed (run platform fs environment₂ clock args₂)

/-- Settings and an environment that speak only about logging make a difference to those that say
nothing. -/
theorem not_irrelevant {α : Type} {observed : SessionResult → α} {environment : Environment}
    {args : List Bytes} (config : Option Bytes) (logging : LoggingSettings)
    (loads : (begin? (.plain none) chattySystem environment args).toOption =
      some (hashLine config, ⟨logging, .default⟩))
    (onlyLogging : ∀ entry ∈ environment, entry.1 ∈ variableNames)
    (differs : observed (run (.plain none) chattySystem [] ⟨"", ""⟩ hashArgs) ≠
      observed (run (.plain none) chattySystem environment ⟨"", ""⟩ args)) :
    ¬Irrelevant observed := by
  intro irrelevant
  have elsewhere (name : String) (hname : name ∉ variableNames) :
      Environment.get? name [] = environment.get? name := by
    refine (Option.eq_none_iff_forall_ne_some.mpr fun value hvalue => hname ?_).symm
    exact onlyLogging _ (NamedTable.mem_of_find? hvalue)
  exact differs (irrelevant (.plain none) chattySystem [] environment ⟨"", ""⟩ _ _ _ _ _ _
    unasked_hash (unasked_of_toOption loads (saysNothing_hashLine config)) rfl rfl elsewhere)

/-- Settings may have a log file made in the tree, so that another digest is printed, and the
environment may keep the log from starting, although nobody asked for a log. -/
theorem unasked_logs_may_show :
    ¬Irrelevant SessionResult.stdout ∧ ¬Irrelevant SessionResult.code ∧
      ¬Irrelevant SessionResult.logged := by
  have inTree : (begin? (.plain none) chattySystem [] (utf8 "--config=f.toml" :: hashArgs)).toOption
      = some (hashLine (some (utf8 "f.toml")),
        ⟨⟨"info", "text", "file", utf8 "r/x.log", true, []⟩, .default⟩) := by decide +kernel
  have noForm : (begin? (.plain none) chattySystem [("DIRTREE_LOG_FORMAT", "xml")] hashArgs).toOption
      = some (hashLine none, .default defaultFile) := by decide +kernel
  refine ⟨?_, ?_, ?_⟩
  · exact not_irrelevant _ _ inTree nofun (by decide +kernel)
  · exact not_irrelevant _ _ noForm (by decide) (by decide +kernel)
  · exact not_irrelevant _ _ inTree nofun (by decide +kernel)

end HashedTree.UnaskedLogs
