import HashedTree.Proofs.LogPreparation

/-!
# Valid settings, and settings that a log starts with

The settings of logging are looked at twice: they are valid if the level, the form and the
destination are known names, and a log starts if a filter can be made, and form and destination are
known. Where the environment has no say, the two agree about the form, the destination and every
known level. The levels of modules are not among the names that are looked at first; a filter needs
them, unless it is closed.
-/
namespace HashedTree.LogValidity
open LogSetup LogDirective

/-- The environment has no say in logging. -/
def Unsaid (environment : Environment) : Prop :=
  ∀ name ∈ variableNames, environment.get? name = none

instance (environment : Environment) : Decidable (Unsaid environment) :=
  inferInstanceAs (Decidable (∀ name ∈ variableNames, environment.get? name = none))

/-- The filter needs a directive that is refused. -/
def NeedsRefused (settings : LoggingSettings) : Prop :=
  settings.level ≠ "off" ∧ ∃ entry ∈ settings.modules, Refused entry

section Unsaid
variable {environment : Environment} {settings : LoggingSettings} {fs : FileSystem}

theorem formName_of_unsaid (unsaid : Unsaid environment) :
    formName environment settings = settings.format := by
  rw [formName, unsaid _ (by simp [variableNames]), Option.getD_none]

theorem sinkName_of_unsaid (unsaid : Unsaid environment) :
    sinkName environment settings = settings.output := by
  rw [sinkName, unsaid _ (by simp [variableNames]), Option.getD_none]

theorem exists_makeFilter_of_unsaid (unsaid : Unsaid environment) :
    (∃ filter, (makeFilter environment settings).result = .ok filter) ↔
      ¬NeedsRefused settings := by
  have noFilter : environmentFilter? environment = none := by
    rw [environmentFilter?, unsaid _ (by simp [variableNames]), Option.bind_none]
  have noFurther : furtherDirectives environment = [] := by
    rw [furtherDirectives, unsaid _ (by simp [variableNames]), Option.map_none, Option.getD_none]
  rw [exists_makeFilter_iff, noFilter, noFurther, List.append_nil, NeedsRefused, not_and_or, not_not]
  simp

/-- What keeps a log from starting. -/
theorem start_fails_iff_of_unsaid (unsaid : Unsaid environment)
    (opens : settings.output = "file" → ∃ files, openFile fs settings.file = .ok files) :
    FailsByConfiguration ((prepare environment settings).start fs) ↔
      NeedsRefused settings ∨ settings.format ∉ logFormats ∨ settings.output ∉ logOutputs := by
  rw [failsByConfiguration_iff (onlyConfiguration_start _ _ _), exists_start_iff,
    exists_makeFilter_of_unsaid unsaid, formName_of_unsaid unsaid, sinkName_of_unsaid unsaid]
  tauto

end Unsaid

/-- Settings with a known level keep a log from starting exactly if they are not valid or the filter
needs a refused directive. An unknown form or destination, or such a directive, keeps it from
starting whatever the level is. -/
theorem start_fails_iff_invalid {environment : Environment} {settings : LoggingSettings}
    {fs : FileSystem} (unsaid : Unsaid environment)
    (opens : settings.output = "file" → ∃ files, openFile fs settings.file = .ok files) :
    (settings.level ∈ logLevels →
      (FailsByConfiguration ((prepare environment settings).start fs) ↔
        settings.fault?.isSome ∨ NeedsRefused settings)) ∧
    (settings.format ∉ logFormats ∨ settings.output ∉ logOutputs ∨ NeedsRefused settings →
      FailsByConfiguration ((prepare environment settings).start fs)) ∧
    (FailsByConfiguration ((prepare environment settings).start fs) ∨
      ∃ started, (prepare environment settings).start fs = .ok started) ∧
    ∀ target level, PlainTarget target → ',' ∉ level.toList →
      (Refused (target, level) ↔ LogThreshold.ofText? level.toList = none) := by
  have fails := start_fails_iff_of_unsaid unsaid opens
  refine ⟨fun known => ?_, fun fault => ?_, ?_, fun target level => refused_iff⟩
  · rw [fails, fault?_isSome_iff]
    tauto
  · rw [fails]
    tauto
  · rw [failsByConfiguration_iff (onlyConfiguration_start _ _ _)]
    exact (Classical.em _).symm

/-- A file system with nothing in it but the working directory. -/
def bareSystem : FileSystem := ⟨.directory 0o755 [], [], true⟩

/-- Settings with a known level, form and destination, and a module with an unknown level. -/
def loudModule : LoggingSettings :=
  ⟨"debug", "json", "file", Utf8Text.utf8 "d.log", true, [("dirtree::tree", "loud")]⟩

theorem opens_loudModule :
    loudModule.output = "file" → ∃ files, openFile bareSystem loudModule.file = .ok files :=
  fun _ => ⟨_, rfl⟩

theorem loudModule_is_valid : loudModule.fault? = none := by decide

theorem needsRefused_loudModule (loud : Refused ("dirtree::tree", "loud")) :
    NeedsRefused loudModule :=
  ⟨by decide, _, List.mem_singleton.mpr rfl, loud⟩

theorem loudModule_does_not_start :
    Unsaid [("HOME", "/home")] ∧
      (loudModule.output = "file" → ∃ files, openFile bareSystem loudModule.file = .ok files) ∧
      loudModule.level ∈ logLevels ∧ PlainTarget "dirtree::tree" ∧ ',' ∉ "loud".toList ∧
      loudModule.fault? = none ∧
      FailsByConfiguration ((prepare [("HOME", "/home")] loudModule).start bareSystem) := by
  have unsaid : Unsaid [("HOME", "/home")] := by decide
  have known : loudModule.level ∈ logLevels := by decide
  have plain : PlainTarget "dirtree::tree" := by decide +kernel
  have noComma : ',' ∉ "loud".toList := by decide
  obtain ⟨fails, -, -, refused⟩ := start_fails_iff_invalid unsaid opens_loudModule
  have loud : Refused ("dirtree::tree", "loud") := (refused _ _ plain noComma).mpr (by decide)
  exact ⟨unsaid, opens_loudModule, known, plain, noComma, loudModule_is_valid,
    (fails known).mpr (.inr (needsRefused_loudModule loud))⟩

/-- Valid settings may keep a log from starting: the levels of modules are not checked with them. -/
theorem valid_settings_may_not_start :
    ¬∀ (fs : FileSystem) (environment : Environment) (settings : LoggingSettings),
      Unsaid environment →
      (settings.output = "file" → ∃ files, openFile fs settings.file = .ok files) →
      (FailsByConfiguration ((prepare environment settings).start fs) ↔ settings.fault?.isSome) := by
  intro agree
  have unsaid : Unsaid [] := by decide
  have plain : PlainTarget "dirtree::tree" := by decide +kernel
  have loud : Refused ("dirtree::tree", "loud") := (refused_iff plain (by decide)).mpr (by decide)
  have fails := (start_fails_iff_of_unsaid unsaid opens_loudModule).mpr
    (.inl (needsRefused_loudModule loud))
  have faulty := (agree bareSystem [] loudModule unsaid opens_loudModule).mp fails
  rw [loudModule_is_valid] at faulty
  cases faulty

end HashedTree.LogValidity
