import HashedTree.LogSetup
import HashedTree.Proofs.LogDirectives
import HashedTree.Proofs.Outcomes

/-!
# What a log needs to start

A log starts exactly if a filter can be made, the form and the destination in force are known, and
the log file can be opened where the log goes to one. Whatever goes wrong is an error of the
configuration.
-/
namespace HashedTree.LogSetup
open LogDirective Outcomes

/-- The variables of the environment that have a say. -/
def variableNames : List String :=
  ["DIRTREE_LOG", "DIRTREE_LOG_FORMAT", "DIRTREE_LOG_OUTPUT", "DIRTREE_LOG_MODULES"]

/-- The form in force: the environment stands before the settings. -/
def formName (environment : Environment) (settings : LoggingSettings) : String :=
  (environment.get? "DIRTREE_LOG_FORMAT").getD settings.format

/-- The destination in force. -/
def sinkName (environment : Environment) (settings : LoggingSettings) : String :=
  (environment.get? "DIRTREE_LOG_OUTPUT").getD settings.output

/-- It fails, and if so by an error of the configuration. -/
def FailsByConfiguration {α : Type} (outcome : Except CommandError α) : Prop :=
  ∃ detail, outcome = .error (.configuration detail)

/-- No other errors are possible. -/
def OnlyConfiguration {α : Type} (outcome : Except CommandError α) : Prop :=
  ∀ error, outcome = .error error → ∃ detail, error = .configuration detail

section Errors
variable {α β : Type} {x : Except CommandError α} {f : α → Except CommandError β}

theorem onlyConfiguration_ok (a : α) : OnlyConfiguration (.ok a) := nofun

theorem onlyConfiguration_error (detail : String) :
    OnlyConfiguration (.error (.configuration detail) : Except CommandError α) := by
  rintro _ ⟨⟩
  exact ⟨detail, rfl⟩

theorem onlyConfiguration_bind (hx : OnlyConfiguration x) (hf : ∀ a, OnlyConfiguration (f a)) :
    OnlyConfiguration (x.bind f) := by
  intro error h
  rcases bind_eq_error.mp h with hhere | ⟨a, -, hlater⟩
  · exact hx error hhere
  · exact hf a error hlater

theorem onlyConfiguration_map {g : α → β} (hx : OnlyConfiguration x) :
    OnlyConfiguration (x.map g) :=
  fun error h => hx error (map_eq_error.mp h)

theorem onlyConfiguration_mapError {ε : Type} (y : Except ε α) (text : ε → String) :
    OnlyConfiguration (y.mapError fun cause => .configuration (text cause)) := by
  intro error h
  obtain ⟨cause, -, rfl⟩ := mapError_eq_error.mp h
  exact ⟨text cause, rfl⟩

theorem failsByConfiguration_iff (h : OnlyConfiguration x) :
    FailsByConfiguration x ↔ ¬∃ a, x = .ok a := by
  cases x with
  | ok a => simp [FailsByConfiguration]
  | error error =>
    obtain ⟨detail, rfl⟩ := h error rfl
    simp [FailsByConfiguration]

end Errors

section Directives
variable {complaint target level : String} {filter : LogFilter} {table : List (String × String)}

theorem addDirectives_cons_refused {fault : DirectiveFault}
    (h : parse (target ++ "=" ++ level).toList = .error fault) :
    addDirectives complaint filter ((target, level) :: table) =
      .error (.configuration (complaint ++ ": " ++ fault.text)) := by
  simp only [addDirectives, List.foldlM_cons, h]
  rfl

theorem addDirectives_cons_read {d : LogDirective}
    (h : parse (target ++ "=" ++ level).toList = .ok d) :
    addDirectives complaint filter ((target, level) :: table) =
      addDirectives complaint (filter.add d) table := by
  simp only [addDirectives, List.foldlM_cons, h]
  rfl

/-- Directives are added exactly if none is refused. -/
theorem exists_addDirectives_iff :
    (∃ added, addDirectives complaint filter table = .ok added) ↔
      ¬∃ entry ∈ table, Refused entry := by
  induction table generalizing filter with
  | nil => simp [addDirectives, pure, Except.pure]
  | cons entry table ih =>
    obtain ⟨target, level⟩ := entry
    cases h : parse (target ++ "=" ++ level).toList with
    | error fault =>
      have refused : Refused (target, level) := ⟨fault, h⟩
      simp [addDirectives_cons_refused h, refused]
    | ok d =>
      have fine : ¬Refused (target, level) := by
        rintro ⟨fault, hfault⟩
        rw [h] at hfault
        cases hfault
      rw [addDirectives_cons_read h, ih]
      simp [fine]

theorem onlyConfiguration_addDirectives :
    OnlyConfiguration (addDirectives complaint filter table) := by
  induction table generalizing filter with
  | nil => exact onlyConfiguration_ok filter
  | cons entry table ih =>
    obtain ⟨target, level⟩ := entry
    cases h : parse (target ++ "=" ++ level).toList with
    | error fault =>
      rw [addDirectives_cons_refused h]
      exact onlyConfiguration_error _
    | ok d =>
      rw [addDirectives_cons_read h]
      exact ih

/-- The directives of the environment that add to the settings. -/
def furtherDirectives (environment : Environment) : List (String × String) :=
  ((environment.get? "DIRTREE_LOG_MODULES").map tableOf).getD []

/-- A filter can be made unless a directive is refused; there is none to refuse if the environment
gives the filter, or if the settings close it. -/
theorem exists_makeFilter_iff (environment : Environment) (settings : LoggingSettings) :
    (∃ filter, (makeFilter environment settings).result = .ok filter) ↔
      (environmentFilter? environment).isSome ∨ settings.level = "off" ∨
        ¬∃ entry ∈ settings.modules ++ furtherDirectives environment, Refused entry := by
  rw [makeFilter]
  cases environmentFilter? environment with
  | some filter => simp
  | none =>
    by_cases off : settings.level = "off"
    · simp [off]
    · have apart : (¬∃ entry ∈ settings.modules ++ furtherDirectives environment, Refused entry) ↔
          (¬∃ entry ∈ settings.modules, Refused entry) ∧
            ¬∃ entry ∈ furtherDirectives environment, Refused entry := by
        simp [or_imp, forall_and]
      rw [if_neg off, apart]
      constructor
      · rintro ⟨filter, h⟩
        obtain ⟨middle, hmiddle, hlast⟩ := bind_eq_ok.mp h
        exact .inr (.inr ⟨exists_addDirectives_iff.mp ⟨middle, hmiddle⟩,
          exists_addDirectives_iff.mp ⟨filter, hlast⟩⟩)
      · intro h
        obtain ⟨hmodules, hfurther⟩ := (h.resolve_left (by simp)).resolve_left off
        obtain ⟨middle, hmiddle⟩ := exists_addDirectives_iff.mpr hmodules
        obtain ⟨filter, hfilter⟩ := exists_addDirectives_iff.mpr hfurther
        exact ⟨filter, bind_eq_ok.mpr ⟨middle, hmiddle, hfilter⟩⟩

theorem onlyConfiguration_makeFilter (environment : Environment) (settings : LoggingSettings) :
    OnlyConfiguration (makeFilter environment settings).result := by
  rw [makeFilter]
  cases environmentFilter? environment with
  | some filter => exact onlyConfiguration_ok filter
  | none =>
    by_cases off : settings.level = "off"
    · rw [if_pos off]
      exact onlyConfiguration_ok _
    · rw [if_neg off]
      exact onlyConfiguration_bind onlyConfiguration_addDirectives fun _ =>
        onlyConfiguration_addDirectives

end Directives

section Names
variable {name : String}

theorem exists_formOf_iff : (∃ form, formOf name = .ok form) ↔ name ∈ logFormats := by
  by_cases documents : name = "json"
  · simp [formOf, logFormats, documents]
  by_cases text : name = "text"
  · simp [formOf, logFormats, text]
  · simp [formOf, logFormats, documents, text]

/-- The name of a destination. -/
def wordOf : LogSink → String
  | .stdout => "stdout"
  | .stderr => "stderr"
  | .file => "file"

theorem sinkOf_eq_ok_iff {sink : LogSink} : sinkOf name = .ok sink ↔ name = wordOf sink := by
  constructor
  · intro h
    rw [sinkOf] at h
    split_ifs at h with stdout stderr file
    · exact Except.ok.inj h ▸ stdout
    · exact Except.ok.inj h ▸ stderr
    · exact Except.ok.inj h ▸ file
  · rintro rfl
    cases sink <;> rfl

theorem exists_sinkOf_iff : (∃ sink, sinkOf name = .ok sink) ↔ name ∈ logOutputs := by
  simp only [sinkOf_eq_ok_iff]
  constructor
  · rintro ⟨sink, rfl⟩
    cases sink <;> decide
  · intro h
    rcases (by simpa [logOutputs] using h) with rfl | rfl | rfl
    · exact ⟨.stdout, rfl⟩
    · exact ⟨.stderr, rfl⟩
    · exact ⟨.file, rfl⟩

theorem fault?_isSome_iff {settings : LoggingSettings} : settings.fault?.isSome ↔
    settings.level ∉ logLevels ∨ settings.format ∉ logFormats ∨ settings.output ∉ logOutputs := by
  rw [LoggingSettings.fault?]
  split
  case isTrue level => simp [level]
  case isFalse level =>
    split
    case isTrue format => simp [format]
    case isFalse format => split <;> simp_all

end Names

section Starting
variable {environment : Environment} {settings : LoggingSettings} {fs : FileSystem}

/-- The setup for a filter, a form and a destination. -/
def setupOf (settings : LoggingSettings) (filter : LogFilter) (form : LogForm) (sink : LogSink) :
    LogSetup :=
  ⟨filter, form, sink, settings.color && decide (sink ≠ .file), settings.file⟩

theorem prepare_result (environment : Environment) (settings : LoggingSettings) :
    (prepare environment settings).result =
      (makeFilter environment settings).result.bind fun filter =>
        ((formOf (formName environment settings)).mapError fun fault =>
          .configuration fault.text).bind fun form =>
            ((sinkOf (sinkName environment settings)).mapError fun fault =>
              .configuration fault.text).bind fun sink => .ok (setupOf settings filter form sink) :=
  rfl

theorem exists_opened_iff (fs : FileSystem) (setup : LogSetup) :
    (∃ files, setup.opened fs = .ok files) ↔
      (setup.sink = .file → ∃ files, openFile fs setup.file = .ok files) := by
  obtain ⟨filter, form, sink, colors, file⟩ := setup
  cases sink <;> simp [opened]

/-- The setup that a log starts with, and the files. -/
theorem start_eq_ok_iff {setup : LogSetup} {files : FileSystem} :
    (prepare environment settings).start fs = .ok (setup, files) ↔
      ∃ filter form sink, (makeFilter environment settings).result = .ok filter ∧
        formOf (formName environment settings) = .ok form ∧
        sinkOf (sinkName environment settings) = .ok sink ∧
        setup = setupOf settings filter form sink ∧ setup.opened fs = .ok files := by
  rw [Preparation.start, prepare_result]
  simp only [bind_eq_ok, mapError_eq_ok, map_eq_ok, Except.ok.injEq, Prod.mk.injEq]
  constructor
  · rintro ⟨_, ⟨filter, hfilter, form, hform, sink, hsink, rfl⟩, _, hopened, rfl, rfl⟩
    exact ⟨filter, form, sink, hfilter, hform, hsink, rfl, hopened⟩
  · rintro ⟨filter, form, sink, hfilter, hform, hsink, rfl, hopened⟩
    exact ⟨_, ⟨filter, hfilter, form, hform, sink, hsink, rfl⟩, files, hopened, rfl, rfl⟩

/-- What starting a log takes. -/
theorem exists_start_iff :
    (∃ started, (prepare environment settings).start fs = .ok started) ↔
      (∃ filter, (makeFilter environment settings).result = .ok filter) ∧
        formName environment settings ∈ logFormats ∧ sinkName environment settings ∈ logOutputs ∧
        (sinkName environment settings = "file" →
          ∃ files, openFile fs settings.file = .ok files) := by
  rw [← exists_formOf_iff, ← exists_sinkOf_iff]
  constructor
  · rintro ⟨⟨setup, files⟩, started⟩
    obtain ⟨filter, form, sink, hfilter, hform, hsink, rfl, hopened⟩ := start_eq_ok_iff.mp started
    refine ⟨⟨filter, hfilter⟩, ⟨form, hform⟩, ⟨sink, hsink⟩, fun toFile => ?_⟩
    obtain rfl : sink = .file := Except.ok.inj (hsink.symm.trans (sinkOf_eq_ok_iff.mpr toFile))
    exact ⟨files, hopened⟩
  · rintro ⟨⟨filter, hfilter⟩, ⟨form, hform⟩, ⟨sink, hsink⟩, opens⟩
    obtain ⟨files, hopened⟩ := (exists_opened_iff fs (setupOf settings filter form sink)).mpr
      fun toFile => opens (sinkOf_eq_ok_iff.mp (hsink.trans (congrArg Except.ok toFile)))
    exact ⟨(_, files), start_eq_ok_iff.mpr ⟨filter, form, sink, hfilter, hform, hsink, rfl, hopened⟩⟩

theorem onlyConfiguration_openFile (fs : FileSystem) (file : ByteBlocks.Bytes) :
    OnlyConfiguration (openFile fs file) := by
  rw [openFile]
  split
  case h_1 => exact onlyConfiguration_mapError _ _
  case h_2 directory _ =>
    dsimp only
    split
    case h_1 => exact onlyConfiguration_mapError _ _
    case h_2 => exact onlyConfiguration_error _

theorem onlyConfiguration_opened (setup : LogSetup) (fs : FileSystem) :
    OnlyConfiguration (setup.opened fs) := by
  obtain ⟨filter, form, sink, colors, file⟩ := setup
  cases sink with
  | stdout => exact onlyConfiguration_ok fs
  | stderr => exact onlyConfiguration_ok fs
  | file => exact onlyConfiguration_openFile fs file

/-- A log that does not start is an error of the configuration. -/
theorem onlyConfiguration_start (environment : Environment) (settings : LoggingSettings)
    (fs : FileSystem) : OnlyConfiguration ((prepare environment settings).start fs) := by
  rw [Preparation.start, prepare_result]
  refine onlyConfiguration_bind ?_ fun setup => onlyConfiguration_map (onlyConfiguration_opened _ _)
  refine onlyConfiguration_bind (onlyConfiguration_makeFilter _ _) fun filter => ?_
  refine onlyConfiguration_bind (onlyConfiguration_mapError _ _) fun form => ?_
  exact onlyConfiguration_bind (onlyConfiguration_mapError _ _) fun sink => onlyConfiguration_ok _

end Starting

end HashedTree.LogSetup
