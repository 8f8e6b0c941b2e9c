import HashedTree.Session
import HashedTree.Proofs.AppendedFiles

/-!
# What stands in a log file

Once its log file is open, a run writes all its lines to it, in the order of the events. At every
moment of a build the log file holds just what the walk is told that it has been given by then, so a
walk that comes across it reads the lines of the events so far.
-/
namespace HashedTree.LogFiles
open ByteBlocks AppendedFiles FileSystem LogSetup Outcomes Session Utf8Text

theorem utf8_append (text more : String) : utf8 (text ++ more) = utf8 text ++ utf8 more := by
  rw [utf8_eq_flatMap, utf8_eq_flatMap, utf8_eq_flatMap, String.toList_append, List.flatMap_append]

section Noting
variable {fs : FileSystem} {clock : LogClock} {setup : LogSetup} {soFar : SessionResult}
  {names : List Bytes} {mode : Nat} {content : Bytes} {text : String}

/-- The log file holds this text behind what it held before, and all of it is on record. -/
structure Logged (fs : FileSystem) (setup : LogSetup) (names : List Bytes) (mode : Nat)
    (content : Bytes) (text : String) (result : SessionResult) : Prop where
  grown : Grown fs result.files names mode content (utf8 text)
  recorded : result.logged = some (setup.file, text)

theorem lines_nil : setup.lines clock [] = "" := rfl

theorem lines_append (events more : List ProgramEvent) :
    setup.lines clock (events ++ more) = setup.lines clock events ++ setup.lines clock more := by
  rw [lines, List.filterMap_append, String.join_append]
  rfl

theorem logged_note (toFile : setup.sink = .file)
    (writable : Writable fs setup.file names mode content)
    (h : Logged fs setup names mode content text soFar) (event : ProgramEvent) :
    Logged fs setup names mode content (text ++ setup.lines clock [event])
      (note clock setup soFar event) := by
  rw [note, lines]
  cases hline : setup.line? clock event with
  | none =>
    have same : text ++ String.join ([event].filterMap (setup.line? clock)) = text := by
      simp [hline]
    rw [same]
    exact h
  | some line =>
    obtain ⟨files, appended, grown⟩ := h.grown.append writable (utf8 line)
    have further : text ++ String.join ([event].filterMap (setup.line? clock)) = text ++ line := by
      simp [hline]
    rw [further]
    simp only [toFile, appended]
    refine ⟨?_, ?_⟩
    · rw [utf8_append]
      exact grown
    · rw [h.recorded]
      rfl

theorem logged_foldl_note (clock : LogClock) (toFile : setup.sink = .file)
    (writable : Writable fs setup.file names mode content)
    (h : Logged fs setup names mode content text soFar) (events : List ProgramEvent) :
    Logged fs setup names mode content (text ++ setup.lines clock events)
      (events.foldl (note clock setup) soFar) := by
  induction events generalizing soFar text with
  | nil =>
    rw [lines_nil, String.append_empty]
    exact h
  | cons event events ih =>
    rw [← List.singleton_append, lines_append, ← String.append_assoc]
    exact ih (logged_note toFile writable h event)

end Noting

section Running
variable {fs files : FileSystem} {clock : LogClock} {setup : LogSetup} {root : Bytes}
  {names : List Bytes} {mode : Nat} {content : Bytes}

/-- What a run has left behind before its first event. -/
def begun (fs : FileSystem) (setup : LogSetup) : SessionResult :=
  { code := 0, stdout := "", stderr := "", files := fs, logged := setup.logFile?.map (·, "") }

theorem logged_begun (toFile : setup.sink = .file)
    (writable : Writable fs setup.file names mode content) :
    Logged fs setup names mode content "" (begun fs setup) where
  grown := .refl (PathResolution.at?_of_resolve writable.leads)
  recorded := by rw [begun, logFile?_eq_some.mpr ⟨toFile, rfl⟩, Option.map_some]

/-- At every moment of a build, a file holds what the walk finds in it: what it held before, and
what the log has given to it with the events so far. -/
theorem contentAt_amid_build (toFile : setup.sink = .file)
    (writable : Writable fs setup.file names mode content) (noted : List BuildEvent)
    {path found : Bytes} (hfound : fs.contentAt path = .ok found) :
    ((.starting :: noted.map (.duringBuild root)).foldl (note clock setup)
        (begun fs setup)).files.contentAt path =
      .ok (found ++ growth fs clock setup root noted path) := by
  have logged := logged_foldl_note clock toFile writable (logged_begun toFile writable)
    (.starting :: noted.map (.duringBuild root))
  rw [logged.grown.contentAt writable hfound, String.empty_append, growth,
    logFile?_eq_some.mpr ⟨toFile, rfl⟩]

/-- A log file that was opened can be written to. -/
theorem writable_of_opened (toFile : setup.sink = .file) (h : setup.opened fs = .ok files) :
    ∃ names mode content, Writable files setup.file names mode content := by
  rw [opened, toFile] at h
  dsimp only at h
  rw [openFile] at h
  split at h
  · exact writable_of_appendContent (mapError_eq_ok.mp h)
  · split at h
    · exact writable_of_appendContent (mapError_eq_ok.mp h)
    · cases h

/-- All lines of a command's events are in the log file in the end, behind what it held before. -/
theorem logged_performed (clock : LogClock) (toFile : setup.sink = .file)
    (writable : Writable fs setup.file names mode content) (settings : OutputSettings)
    (command : TreeCommand) :
    let performance := command.performAmid (growth fs clock setup command.path) fs settings
    Logged fs setup names mode content
      (setup.lines clock (.starting :: performance.events ++ [lastEvent performance.result]))
      (performed fs clock setup settings command) := by
  intro performance
  have logged := logged_foldl_note clock toFile writable (logged_begun toFile writable)
    (.starting :: performance.events ++ [lastEvent performance.result])
  rw [String.empty_append] at logged
  rw [performed]
  split
  · exact ⟨logged.grown, logged.recorded⟩
  · exact ⟨logged.grown, logged.recorded⟩

/-- A run whose log starts in a file leaves all its lines there. -/
theorem logged_continued {environment : Environment} {line : CommandLine} {settings : Settings}
    (started : (prepare environment (loggingSettings line settings.logging)).start fs =
      .ok (setup, files)) (toFile : setup.sink = .file) :
    let performance :=
      line.command.performAmid (growth files clock setup line.command.path) files settings.output
    ∃ names mode content, Writable files setup.file names mode content ∧
      Logged files setup names mode content
        (setup.lines clock (.starting :: performance.events ++ [lastEvent performance.result]))
        (continued fs environment clock line settings) := by
  intro performance
  obtain ⟨prepared, -, hopened⟩ := bind_eq_ok.mp started
  obtain ⟨opened, hfiles, same⟩ := map_eq_ok.mp hopened
  cases same
  obtain ⟨names, mode, content, writable⟩ := writable_of_opened toFile hfiles
  have logged := logged_performed clock toFile writable settings.output line.command
  refine ⟨names, mode, content, writable, ?_⟩
  rw [continued, started]
  exact ⟨logged.grown, logged.recorded⟩

end Running

end HashedTree.LogFiles
