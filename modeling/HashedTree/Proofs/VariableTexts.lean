import HashedTree.Proofs.LayeredSettings
import HashedTree.Proofs.NumberTexts
import HashedTree.Proofs.PlacedValues
import HashedTree.Session

/-!
# The log file that a variable of the environment names

A text in a file of settings is taken as it stands. The text of a variable is read as a truth value
or a number first, and stands for that value; where a text is expected after all, the value is
written out in its own way, so that signs, zeros and capital letters may be lost. Any other text is
taken as it stands.
-/
namespace HashedTree.VariableTexts
open ByteBlocks SettingTree SettingDecoding LaidTables PlacedValues NumberTexts ConfigurationLayers
open DocumentedSettings LayeredSettings Outcomes

variable {text shown : String} {tree changed value : SettingTree} {bytes file : Bytes}
  {settings : Settings} {logging : LoggingSettings} {environment before after : Environment}
  {held : Option String} {platform : Platform}

/-! ### What a text stands for -/

def IsTruthWord (text : String) : Prop :=
  LetterCase.lowercase text = "true" ∨ LetterCase.lowercase text = "false"

/-- What a variable with a text means where a text is expected. -/
inductive StandsFor (text : String) : String → Prop where
  | word (isWord : IsTruthWord text) : StandsFor text (LetterCase.lowercase text)
  | integer {n : Int} (noWord : ¬ IsTruthWord text) (reads : IntegerText text.toList n)
      (fits : FitsWord n) : StandsFor text (toString n)
  | real {x : Float} (noWord : ¬ IsTruthWord text)
      (noInteger : ∀ n, IntegerText text.toList n → ¬ FitsWord n) (reads : RealText text.toList x) :
      StandsFor text (ShortestDecimal.plainText x)
  | itself (noWord : ¬ IsTruthWord text)
      (noInteger : ∀ n, IntegerText text.toList n → ¬ FitsWord n)
      (noReal : ∀ x, ¬ RealText text.toList x) : StandsFor text text

theorem textOf_valueOf_eq_ok_iff : textOf (valueOf text) = .ok shown ↔ StandsFor text shown := by
  simp only [valueOf]
  constructor
  · intro h
    split at h
    · next word =>
      cases h
      rw [if_pos rfl, ← word]
      exact .word (.inl word)
    split at h
    · next word =>
      cases h
      rw [if_neg Bool.false_ne_true, ← word]
      exact .word (.inr word)
    · next notTrue notFalse =>
      have noWord : ¬ IsTruthWord text := not_or.mpr ⟨notTrue, notFalse⟩
      split at h
      · next n hn =>
        cases h
        obtain ⟨reads, fits⟩ := word?_eq_some_iff.mp hn
        exact .integer noWord reads fits
      · next hn =>
        have noInteger := word?_eq_none_iff.mp hn
        split at h
        · next x hx =>
          cases h
          exact .real noWord noInteger (float?_eq_some_iff.mp hx)
        · next hx =>
          cases h
          exact .itself noWord noInteger (float?_eq_none_iff.mp hx)
  · intro h
    cases h with
    | word isWord => obtain word | word := isWord <;> rw [word] <;> rfl
    | integer noWord reads fits =>
      obtain ⟨notTrue, notFalse⟩ := not_or.mp noWord
      rw [if_neg notTrue, if_neg notFalse, word?_eq_some_iff.mpr ⟨reads, fits⟩]
      rfl
    | real noWord noInteger reads =>
      obtain ⟨notTrue, notFalse⟩ := not_or.mp noWord
      rw [if_neg notTrue, if_neg notFalse, word?_eq_none_iff.mpr noInteger,
        float?_eq_some_iff.mpr reads]
      rfl
    | itself noWord noInteger noReal =>
      obtain ⟨notTrue, notFalse⟩ := not_or.mp noWord
      rw [if_neg notTrue, if_neg notFalse, word?_eq_none_iff.mpr noInteger,
        float?_eq_none_iff.mpr noReal]
      rfl

theorem exists_standsFor (text : String) : ∃ shown, StandsFor text shown := by
  by_cases word : IsTruthWord text
  · exact ⟨_, .word word⟩
  by_cases integer : ∃ n, IntegerText text.toList n ∧ FitsWord n
  · obtain ⟨n, reads, fits⟩ := integer
    exact ⟨_, .integer word reads fits⟩
  have noInteger : ∀ n, IntegerText text.toList n → ¬ FitsWord n :=
    fun n reads fits => integer ⟨n, reads, fits⟩
  by_cases real : ∃ x, RealText text.toList x
  · obtain ⟨x, reads⟩ := real
    exact ⟨_, .real word noInteger reads⟩
  · exact ⟨text, .itself word noInteger (not_exists.mp real)⟩

theorem isTable_valueOf (text : String) : isTable (valueOf text) = false := by
  obtain ⟨shown, stands⟩ := exists_standsFor text
  have h := textOf_valueOf_eq_ok_iff.mpr stands
  cases hvalue : valueOf text with
  | table =>
    rw [hvalue] at h
    cases h
  | _ => rfl

/-! ### Decoding -/

theorem loggingOf_eq_ok_iff (tabular : isTable tree = true) :
    loggingOf file tree = .ok logging ↔
      field tree 0 "level" (LoggingSettings.default file).level textOf = .ok logging.level ∧
      field tree 1 "format" (LoggingSettings.default file).format textOf = .ok logging.format ∧
      field tree 2 "output" (LoggingSettings.default file).output textOf = .ok logging.output ∧
      field tree 3 "file" (LoggingSettings.default file).file pathOf = .ok logging.file ∧
      field tree 4 "color" (LoggingSettings.default file).color truthOf = .ok logging.color ∧
      field tree 5 "modules" (LoggingSettings.default file).modules tableOf =
        .ok logging.modules := by
  simp only [loggingOf, checkSection_table _ tabular, bind, pure, Except.pure, ok_bind, bind_eq_ok]
  constructor
  · rintro ⟨level, hlevel, format, hformat, output, houtput, path, hpath, color, hcolor, modules,
      hmodules, ⟨⟩⟩
    exact ⟨hlevel, hformat, houtput, hpath, hcolor, hmodules⟩
  · rintro ⟨hlevel, hformat, houtput, hpath, hcolor, hmodules⟩
    exact ⟨_, hlevel, _, hformat, _, houtput, _, hpath, _, hcolor, _, hmodules, rfl⟩

theorem settingsOf_eq_ok_iff :
    SettingDecoding.settingsOf file tree = .ok settings ↔
      field tree 0 "logging" (.default file) (loggingOf file) = .ok settings.logging ∧
      field tree 1 "output" .default outputOf = .ok settings.output := by
  simp only [SettingDecoding.settingsOf, bind, pure, Except.pure, bind_eq_ok]
  constructor
  · rintro ⟨logging, hlogging, output, houtput, ⟨⟩⟩
    exact ⟨hlogging, houtput⟩
  · rintro ⟨hlogging, houtput⟩
    exact ⟨_, hlogging, _, houtput, rfl⟩

/-- A field depends on its own member only. -/
theorem field_congr {α : Type} {fallback : α} {decode : SettingTree → Except DecodingFault α}
    {position : Nat} {name : String} (tabular : isTable tree = true)
    (tabularChanged : isTable changed = true) (same : changed.member? name = tree.member? name) :
    field changed position name fallback decode = field tree position name fallback decode := by
  rw [field_table _ _ _ _ tabularChanged, field_table _ _ _ _ tabular, same]

theorem loggingOf_placed (tabular : isTable tree = true) (placed : Placed value ["file"] tree changed)
    (isPath : pathOf value = .ok bytes) (h : loggingOf file tree = .ok logging) :
    loggingOf file changed = .ok { logging with file := bytes } := by
  obtain ⟨tabularChanged, elsewhere, inner, here, rfl⟩ := placed
  obtain ⟨hlevel, hformat, houtput, -, hcolor, hmodules⟩ := (loggingOf_eq_ok_iff tabular).mp h
  have own : field changed 3 "file" (LoggingSettings.default file).file pathOf = .ok bytes := by
    rw [field_table _ _ _ _ tabularChanged, here]
    exact congrArg (Except.mapError _) isPath
  rw [loggingOf_eq_ok_iff tabularChanged]
  refine ⟨?_, ?_, ?_, own, ?_, ?_⟩ <;>
    rwa [field_congr tabular tabularChanged (elsewhere _ (by decide))]

/-- With a path as the log file, settings decode that decode with another one or without any. -/
theorem settingsOf_placed (tabular : isTable tree = true)
    (placed : Placed value SettingKey.logFile.way tree changed) (isPath : pathOf value = .ok bytes)
    (h : SettingDecoding.settingsOf file tree = .ok settings) :
    ∃ logging, (logging = settings.logging ∨ logging = .default file) ∧
      SettingDecoding.settingsOf file changed =
        .ok ⟨{ logging with file := bytes }, settings.output⟩ := by
  obtain ⟨tabularChanged, elsewhere, inner, here, placed⟩ := placed
  obtain ⟨hlogging, houtput⟩ := settingsOf_eq_ok_iff.mp h
  have output : field changed 1 "output" .default outputOf = .ok settings.output := by
    rwa [field_congr tabular tabularChanged (elsewhere _ (by decide))]
  have whole : ∀ {logging}, loggingOf file inner = .ok logging →
      SettingDecoding.settingsOf file changed = .ok ⟨logging, settings.output⟩ := by
    intro logging decoded
    refine settingsOf_eq_ok_iff.mpr ⟨?_, output⟩
    rw [field_table _ _ _ _ tabularChanged, here]
    exact congrArg (Except.mapError _) decoded
  have defaults : loggingOf file empty = .ok (.default file) := rfl
  rw [field_table _ _ _ _ tabular] at hlogging
  cases found : tree.member? "logging" with
  | none =>
    rw [found] at placed
    exact ⟨_, .inr rfl, whole (loggingOf_placed rfl placed isPath defaults)⟩
  | some part =>
    rw [found] at placed hlogging
    cases single : isTable part with
    | true =>
      have decoded := mapError_eq_ok.mp hlogging
      exact ⟨_, .inl rfl, whole (loggingOf_placed single placed isPath decoded)⟩
    | false =>
      exact ⟨_, .inr rfl, whole (loggingOf_placed rfl (placed_empty single placed) isPath defaults)⟩

/-! ### The variable among others -/

def logFileVariable : String := "DIRTREE__LOGGING__FILE"

/-- An environment with what the variable for the log file holds, if it is set. -/
def withLogFile (before : Environment) (held : Option String) (after : Environment) : Environment :=
  before ++ (held.map (logFileVariable, ·)).toList ++ after

/-- A variable is set neither for the log file nor for a part that it is in or that is in it. -/
def LeavesLogFile (name : String) : Prop :=
  ∀ key ∈ keyOf? name, branchesOff (KeyPath.ofKey key) SettingKey.logFile.way

instance (name : String) : Decidable (LeavesLogFile name) :=
  inferInstanceAs (Decidable (∀ key ∈ keyOf? name, _))

theorem logFileVariable_key :
    ∃ key, keyOf? logFileVariable = some key ∧
      KeyPath.ofKey key = SettingKey.logFile.way.map .member :=
  SettingKey.keyOf?_variableName trivial (by decide +kernel)

theorem environmentLayer_append (before after : Environment) :
    environmentLayer (before ++ after) = environmentLayer before ++ environmentLayer after :=
  List.filterMap_append

theorem branchesOff_of_leaves (leave : ∀ entry ∈ environment, LeavesLogFile entry.1) :
    ∀ entry ∈ environmentLayer environment,
      branchesOff (KeyPath.ofKey entry.1) SettingKey.logFile.way := by
  intro entry hentry
  obtain ⟨⟨name, text⟩, hmem, h⟩ := List.mem_filterMap.mp hentry
  obtain ⟨key, hkey, rfl⟩ := Option.map_eq_some_iff.mp h
  exact leave _ hmem key hkey

theorem layLayer_logFile (tree : SettingTree) (text : String) :
    tree.layLayer (environmentLayer [(logFileVariable, text)]) =
      layAt (valueOf text) (SettingKey.logFile.way.map .member) tree := by
  obtain ⟨key, hkey, steps⟩ := logFileVariable_key
  have entry : environmentLayer [(logFileVariable, text)] = [(key, valueOf text)] :=
    environmentLayer_of_key hkey
  rw [entry, ← steps]
  rfl

/-- Whether the variable was set before or not, its new text stands at the place of the log file,
and nothing else changes. -/
theorem placed_variable (leave : ∀ entry ∈ after, LeavesLogFile entry.1) (tree : SettingTree)
    (before : Environment) (held : Option String) (text : String) :
    Placed (valueOf text) SettingKey.logFile.way
      (tree.layLayer (environmentLayer (withLogFile before held after)))
      (tree.layLayer (environmentLayer (withLogFile before (some text) after))) := by
  have laid : ∀ text (tree : SettingTree), Placed (valueOf text) SettingKey.logFile.way tree
      (tree.layLayer (environmentLayer [(logFileVariable, text)])) := by
    intro text tree
    rw [layLayer_logFile]
    exact placed_laid (isTable_valueOf text) tree (SettingKey.way_ne_nil _) (by decide +kernel)
  simp only [withLogFile, environmentLayer_append, layLayer_append]
  refine placed_layLayer (branchesOff_of_leaves leave) ?_
  cases held with
  | none => exact laid text _
  | some old => exact (laid old _).replaced (laid text _)

/-! ### Directories of the user -/

theorem get?_withLogFile {name : String} (different : logFileVariable ≠ name)
    (before : Environment) (held : Option String) (after : Environment) :
    (withLogFile before held after).get? name = (before ++ after).get? name := by
  have own : NamedTable.find? name (held.map (logFileVariable, ·)).toList = none := by
    cases held with
    | none => rfl
    | some text => exact if_neg different
  simp only [Environment.get?, withLogFile, NamedTable.find?_append, own, Option.or_none]

theorem directoryFrom_withLogFile {variableName : String} (different : logFileVariable ≠ variableName)
    (account : Option Bytes) (belowHome : String) (before : Environment) (held : Option String)
    (after : Environment) :
    (withLogFile before held after).directoryFrom account variableName belowHome =
      (before ++ after).directoryFrom account variableName belowHome := by
  have home : logFileVariable ≠ "HOME" := by decide
  simp only [Environment.directoryFrom, Environment.home, get?_withLogFile different,
    get?_withLogFile home]

theorem globalFile_withLogFile (account : Option Bytes) (before : Environment)
    (held : Option String) (after : Environment) :
    (withLogFile before held after).globalFile account = (before ++ after).globalFile account := by
  rw [Environment.globalFile, Environment.globalFile, directoryFrom_withLogFile (by decide)]

theorem defaultLogFile_withLogFile (account : Option Bytes) (before : Environment)
    (held : Option String) (after : Environment) :
    (withLogFile before held after).defaultLogFile account =
      (before ++ after).defaultLogFile account := by
  rw [Environment.defaultLogFile, Environment.defaultLogFile, directoryFrom_withLogFile (by decide)]

/-! ### Loading -/

def merged (environment : Environment) (layer : List (String × SettingTree)) : SettingTree :=
  ((empty.layLayer defaults).layLayer layer).layLayer (environmentLayer environment)

theorem isTable_merged (environment : Environment) (layer : List (String × SettingTree)) :
    isTable (merged environment layer) = true :=
  isTable_layLayer (isTable_layLayer (isTable_layLayer rfl))

theorem loaded_eq_ok_iff {layer : List (String × SettingTree)} :
    ConfigurationLayers.settingsOf platform environment layer = .ok settings ↔
      SettingDecoding.settingsOf (environment.defaultLogFile platform.accountHome)
        (merged environment layer) = .ok settings ∧ settings.complaints = [] := by
  simp only [ConfigurationLayers.settingsOf, bind_eq_ok, mapError_eq_ok, List.isEmpty_iff]
  constructor
  · rintro ⟨decoded, hdecoded, h⟩
    split at h
    · next quiet =>
      cases h
      exact ⟨hdecoded, quiet⟩
    · cases h
  · rintro ⟨hdecoded, quiet⟩
    exact ⟨settings, hdecoded, if_pos quiet⟩

theorem complaints_eq_nil_iff :
    settings.complaints = [] ↔
      settings.logging.fault? = none ∧ settings.output.fault? = none := by
  rw [Settings.complaints, List.append_eq_nil_iff, Option.toList_eq_nil_iff, Option.map_eq_none_iff,
    Option.toList_eq_nil_iff, Option.map_eq_none_iff]

theorem loaded_withLogFile {layer : List (String × SettingTree)}
    (leave : ∀ entry ∈ after, LeavesLogFile entry.1) (stands : StandsFor text shown)
    (valid : ConfigurationLayers.settingsOf platform (withLogFile before held after) layer =
      .ok settings) :
    ∃ changed, changed.logging.file = Utf8Text.utf8 shown ∧
      ConfigurationLayers.settingsOf platform (withLogFile before (some text) after) layer =
        .ok changed := by
  obtain ⟨decoded, quiet⟩ := loaded_eq_ok_iff.mp valid
  obtain ⟨quietLogging, quietOutput⟩ := complaints_eq_nil_iff.mp quiet
  have isPath : pathOf (valueOf text) = .ok (Utf8Text.utf8 shown) := by
    rw [pathOf, textOf_valueOf_eq_ok_iff.mpr stands]
    rfl
  have placed := placed_variable leave ((empty.layLayer defaults).layLayer layer) before held text
  obtain ⟨logging, hlogging, hchanged⟩ :=
    settingsOf_placed (isTable_merged _ layer) placed isPath decoded
  refine ⟨⟨{ logging with file := Utf8Text.utf8 shown }, settings.output⟩, rfl,
    loaded_eq_ok_iff.mpr ⟨?_, complaints_eq_nil_iff.mpr ⟨?_, quietOutput⟩⟩⟩
  · rw [defaultLogFile_withLogFile] at hchanged ⊢
    exact hchanged
  · obtain rfl | rfl := hlogging
    · exact quietLogging
    · rfl

/-- The file to load depends on the place of the global one only. -/
theorem exists_layer (platform : Platform) (fs : FileSystem) (environment : Environment)
    (line : CommandLine) :
    ∃ layer : Except ConfigurationFault (List (String × SettingTree)), ∀ other : Environment,
      other.globalFile platform.accountHome = environment.globalFile platform.accountHome →
        Session.loadSettings platform fs other line =
          layer.bind (ConfigurationLayers.settingsOf platform other) := by
  unfold Session.loadSettings
  cases line.config with
  | some path => exact ⟨ConfigurationFiles.layer platform fs path, fun other _ => rfl⟩
  | none =>
    refine ⟨globalLayer platform fs environment, fun other same => ?_⟩
    simp only [load, globalLayer, same]

/-! ### Texts in a file -/

/-- A layer has a text as its log file, and nothing behind it changes that. -/
def WritesLogFile (text : String) (layer : List (String × SettingTree)) : Prop :=
  ∃ front back origin members source behind,
    layer = front ++
      ("logging", .table origin (members ++ ("file", .text source text) :: behind)) :: back ∧
    (∀ member ∈ behind, LetterCase.lowercase member.1 ≠ "file") ∧
    ∀ entry ∈ back, branchesOff (KeyPath.ofKey entry.1) SettingKey.logFile.way

theorem placed_of_writes {layer : List (String × SettingTree)} (writes : WritesLogFile text layer)
    (tree : SettingTree) :
    ∃ source, Placed (.text source text) SettingKey.logFile.way (tree.layLayer layer)
      (tree.layLayer layer) := by
  obtain ⟨front, back, origin, members, source, behind, rfl, others, leave⟩ := writes
  have lower : LetterCase.lowercase "file" = "file" := by decide +kernel
  have lowerSection : LetterCase.lowercase "logging" = "logging" := by decide +kernel
  have steps : KeyPath.ofKey "logging" = [.member "logging"] := by decide
  refine ⟨source, ?_⟩
  rw [layLayer_append, layLayer_cons, steps, layAt, lay_table origin lowerSection, layMembers_append]
  refine placed_layLayer leave (placed_both_withMember (fun _ _ => rfl) ?_)
  exact placed_layMembers_cons rfl lower others _

/-- If the other settings are valid, the log file that a variable names is what its text stands for,
whatever was or was not set before; only a variable that comes later can change that. The text of
a file is the log file as it stands. -/
theorem logFile_of_variable (platform : Platform) (fs : FileSystem) (line : CommandLine)
    (valid : Session.loadSettings platform fs (withLogFile before held after) line = .ok settings)
    (leave : ∀ entry ∈ after, LeavesLogFile entry.1) (text : String) :
    (∃ changed shown, StandsFor text shown ∧ changed.logging.file = Utf8Text.utf8 shown ∧
      Session.loadSettings platform fs (withLogFile before (some text) after) line =
        .ok changed) ∧
    ∀ layer stated, WritesLogFile text layer → (∀ entry ∈ before, LeavesLogFile entry.1) →
      ConfigurationLayers.settingsOf platform (before ++ after) layer = .ok stated →
      stated.logging.file = Utf8Text.utf8 text := by
  constructor
  · obtain ⟨layer, hlayer⟩ := exists_layer platform fs (before ++ after) line
    rw [hlayer _ (globalFile_withLogFile _ _ _ _)] at valid ⊢
    obtain ⟨file, rfl, loaded⟩ := bind_eq_ok.mp valid
    obtain ⟨shown, stands⟩ := exists_standsFor text
    obtain ⟨changed, hfile, hchanged⟩ := loaded_withLogFile leave stands loaded
    exact ⟨changed, shown, stands, hfile, hchanged⟩
  · intro layer stated writes leaveBefore loaded
    obtain ⟨decoded, -⟩ := loaded_eq_ok_iff.mp loaded
    obtain ⟨source, placed⟩ := placed_of_writes writes (empty.layLayer defaults)
    have leaveAll := List.forall_mem_append.mpr ⟨leaveBefore, leave⟩
    have kept := placed_layLayer (branchesOff_of_leaves leaveAll) placed
    obtain ⟨logging, -, same⟩ := settingsOf_placed (isTable_merged _ layer) kept rfl decoded
    exact congrArg (·.logging.file) (Except.ok.inj (decoded.symm.trans same))

def hashLine : CommandLine := ⟨.hash (Utf8Text.utf8 "r"), none, false, none, none, none, none⟩

/-- A numeral in a variable loses its zeros, and keeps them in a file. -/
theorem numeral_in_variable_and_file :
    (∃ changed shown, StandsFor "-0042" shown ∧
      changed.logging.file = Utf8Text.utf8 shown ∧
      Session.loadSettings rootPlatform emptySystem
        (withLogFile [("HOME", "/home")] (some "-0042") [("DIRTREE__LOGGING__LEVEL", "debug")])
        hashLine = .ok changed) ∧
    ∃ stated, ConfigurationLayers.settingsOf rootPlatform
        ([("HOME", "/home")] ++ [("DIRTREE__LOGGING__LEVEL", "debug")])
        [("logging", .table none [("file", .text none "-0042"), ("color", .boolean none false)])] =
          .ok stated ∧
      stated.logging.file = Utf8Text.utf8 "-0042" := by
  have valid : Session.loadSettings rootPlatform emptySystem
      (withLogFile [("HOME", "/home")] none [("DIRTREE__LOGGING__LEVEL", "debug")]) hashLine =
        .ok ⟨⟨"debug", "text", "stderr",
          Utf8Text.utf8 "/home/.local/share/dirtree/dirtree.log", true, []⟩, .default⟩ :=
    toOption_eq_some.mp (by decide +kernel)
  have leave : ∀ entry ∈ [("DIRTREE__LOGGING__LEVEL", "debug")], LeavesLogFile entry.1 := by
    decide +kernel
  have leaveBefore : ∀ entry ∈ [("HOME", "/home")], LeavesLogFile entry.1 := by decide +kernel
  have stated : ConfigurationLayers.settingsOf rootPlatform
      ([("HOME", "/home")] ++ [("DIRTREE__LOGGING__LEVEL", "debug")])
      [("logging", .table none [("file", .text none "-0042"), ("color", .boolean none false)])] =
        .ok ⟨⟨"debug", "text", "stderr", Utf8Text.utf8 "-0042", false, []⟩, .default⟩ :=
    toOption_eq_some.mp (by decide +kernel)
  have writes : WritesLogFile "-0042"
      [("logging", .table none [("file", .text none "-0042"), ("color", .boolean none false)])] :=
    ⟨[], [], none, [], none, [("color", .boolean none false)], rfl, by decide +kernel, nofun⟩
  obtain ⟨ofVariable, ofFile⟩ := logFile_of_variable rootPlatform emptySystem hashLine valid leave "-0042"
  exact ⟨ofVariable, _, stated, ofFile _ _ writes leaveBefore stated⟩

/-- The text of a variable is not always taken as it stands. -/
theorem numerals_are_rewritten :
    ¬ ∀ (platform : Platform) (fs : FileSystem) (environment : Environment) (settings : Settings)
      (text : String), text ≠ "" → (∀ entry ∈ environment, LeavesLogFile entry.1) →
      load platform fs environment = .ok settings →
      ∃ changed, load platform fs (environment ++ [(logFileVariable, text)]) = .ok changed ∧
        changed.logging.file = Utf8Text.utf8 text := by
  intro verbatim
  have valid : load rootPlatform emptySystem [] =
      .ok (.default (Utf8Text.utf8 "/root/.local/share/dirtree/dirtree.log")) :=
    toOption_eq_some.mp (by decide +kernel)
  have loaded : load rootPlatform emptySystem [(logFileVariable, "007")] =
      .ok (.default (Utf8Text.utf8 "7")) := toOption_eq_some.mp (by decide +kernel)
  obtain ⟨changed, hchanged, hfile⟩ :=
    verbatim rootPlatform emptySystem [] _ "007" (by decide) nofun valid
  cases loaded.symm.trans hchanged
  exact absurd hfile (by decide +kernel)

end HashedTree.VariableTexts
