import HashedTree.Proofs.DocumentedSettings
import Mathlib

/-! # Settings come from the environment, else from a file, else from the defaults

This holds for each documented setting by itself, and only the merged settings are checked.
-/
namespace HashedTree
open ByteBlocks SettingTree LaidTables DocumentedSettings ConfigurationLayers

namespace LayeredSettings

variable {platform : Platform} {environment : Environment} {file members : List (String × SettingTree)}
  {key : SettingKey}

/-- A text that is read neither as a truth value nor as a number. -/
structure IsPlain (text : String) : Prop where
  notTrue : LetterCase.lowercase text ≠ "true"
  notFalse : LetterCase.lowercase text ≠ "false"
  noWord : DecimalReading.word? text.toList = none
  noReal : DecimalReading.float? text.toList = none

instance (text : String) : Decidable (IsPlain text) :=
  decidable_of_iff (LetterCase.lowercase text ≠ "true" ∧ LetterCase.lowercase text ≠ "false" ∧
      DecimalReading.word? text.toList = none ∧ DecimalReading.float? text.toList = none)
    ⟨fun ⟨a, b, c, d⟩ => ⟨a, b, c, d⟩, fun ⟨a, b, c, d⟩ => ⟨a, b, c, d⟩⟩

/-- The texts of variables that stand for values of a kind. -/
def Takes : SettingKind → String → Prop
  | .text, word | .path, word => IsPlain word
  | .truth, word => LetterCase.lowercase word = "true" ∨ LetterCase.lowercase word = "false"

def meaning : SettingKind → String → SettingValue
  | .text, word => .text word
  | .path, word => .path (Utf8Text.utf8 word)
  | .truth, word => .truth (LetterCase.lowercase word = "true")

def Sets (name : String) (key : SettingKey) : Prop := LetterCase.lowercase name = key.variableName

instance (name : String) (key : SettingKey) : Decidable (Sets name key) :=
  inferInstanceAs (Decidable (LetterCase.lowercase name = key.variableName))

/-- The variables that override settings set documented ones to values of their kinds, and no two
of them set the same one. -/
structure DocumentedEnvironment (environment : Environment) : Prop where
  overrides : ∀ entry ∈ environment,
    variablePrefix <+: (LetterCase.lowercase entry.1).toList → ∃ key : SettingKey,
      Sets entry.1 key ∧ Takes key.kind entry.2 ∧
        ∀ name ∈ key.way, LetterCase.lowercase name = name
  once : environment.Pairwise fun a b => ∀ key : SettingKey, Sets a.1 key → ¬ Sets b.1 key

/-- The modules that variables name have names that can stand in a key that is a path. -/
def SpelledModules (environment : Environment) : Prop :=
  ∀ entry ∈ environment, ∀ key : SettingKey, Sets entry.1 key → key.Spelled

def DocumentedFile (file : List (String × SettingTree)) : Prop := Documented [] (.table none file)

def environmentValue? (environment : Environment) (key : SettingKey) : Option SettingValue :=
  (environment.find? fun entry => Sets entry.1 key).map fun entry => meaning key.kind entry.2

/-- What a layer states for a setting. -/
def statedValue? (layer : List (String × SettingTree)) (key : SettingKey) : Option SettingValue :=
  (stated? key.way (.table none layer)).bind key.kind.value?

/-- The outcome of loading is made of settings each of which is that of the environment if there is
one, else that of the file, else the default. They are the outcome unless they are invalid. -/
def Layered (platform : Platform) (environment : Environment)
    (file : List (String × SettingTree)) (outcome : Except ConfigurationFault Settings) : Prop :=
  ∃ merged : Settings,
    (∀ key : SettingKey, merged.value? key =
      ((environmentValue? environment key).or (statedValue? file key)).or
        ((Settings.default (environment.defaultLogFile platform.accountHome)).value? key)) ∧
    outcome =
      if merged.complaints.isEmpty then .ok merged else .error (.invalid merged.complaints)

theorem value?_valueOf {kind : SettingKind} {text : String} (h : Takes kind text) :
    kind.value? (valueOf text) = some (meaning kind text) := by
  cases kind with
  | text | path =>
    obtain ⟨notTrue, notFalse, noWord, noReal⟩ := h
    simp only [valueOf, if_neg notTrue, if_neg notFalse, noWord, noReal]
    rfl
  | truth =>
    obtain isTrue | isFalse := h
    · simp only [valueOf, meaning, isTrue]
      rfl
    · simp only [valueOf, meaning, isFalse]
      rfl

/-! ### Documented layers -/

theorem documentedFile_nil : DocumentedFile [] :=
  .table List.mem_cons_self none (List.forall_mem_nil _) (List.forall_mem_nil _)

theorem statedValue?_nil : statedValue? [] key = none := by cases key <;> rfl

theorem documentedFile_append {before after : List (String × SettingTree)}
    (first : DocumentedFile before) (second : DocumentedFile after) :
    DocumentedFile (before ++ after) := by
  have listed : [] ∈ SettingKey.sections := List.mem_cons_self
  have each := List.forall_mem_append.2 ⟨(first.inside listed).2, (second.inside listed).2⟩
  exact .table listed none (fun member mem => (each member mem).1)
    fun member mem => (each member mem).2

theorem bind_or {α β : Type} {a b : Option α} {f : α → Option β}
    (h : ∀ x, a = some x → (f x).isSome) : (a.or b).bind f = (a.bind f).or (b.bind f) := by
  cases a with
  | none => rfl
  | some x =>
    obtain ⟨y, hy⟩ := Option.isSome_iff_exists.1 (h x rfl)
    simp [hy]

/-- The later layer counts where it states something. -/
theorem statedValue?_append (before : List (String × SettingTree))
    {after : List (String × SettingTree)} (h : DocumentedFile after) :
    statedValue? (before ++ after) key = (statedValue? after key).or (statedValue? before key) := by
  have typed : ∀ value, stated? key.way (.table none after) = some value →
      (key.kind.value? value).isSome :=
    fun value => h.stated (List.nil_append key.way).symm
  rw [statedValue?, statedValue?, statedValue?, ← bind_or typed]
  obtain ⟨name, rest, ahead⟩ := List.exists_cons_of_ne_nil key.way_ne_nil
  rw [ahead, stated?_append]

/-! ### A value at the place of its setting -/

def placed (key : SettingKey) (value : SettingTree) : String × SettingTree :=
  (key.way.headD "", nested key.way.tail value)

theorem table_placed (key : SettingKey) (value : SettingTree) :
    .table none [placed key value] = nested key.way value := by
  cases key <;> rfl

theorem spells_placed {text : String} {value : SettingTree}
    (steps : KeyPath.ofKey text = key.way.map .member) :
    Spells (text, value) (placed key value) := by
  cases key <;> exact .path _ _ _ steps

theorem documented_nested {value : SettingTree} (typed : (key.kind.value? value).isSome)
    (lower : ∀ name ∈ key.way, LetterCase.lowercase name = name) :
    ∀ {names before : List String}, key.way = before ++ names →
      Documented before (nested names value)
  | [], before, ahead => ahead.trans (List.append_nil before) ▸ .setting key typed
  | name :: names, before, ahead => by
    have here : LetterCase.lowercase name = name :=
      lower name (ahead ▸ List.mem_append_right before List.mem_cons_self)
    have inner := documented_nested typed lower (ahead.trans (List.append_cons before name names))
    exact .table (SettingKey.listed_of_way ahead) none (List.forall_mem_singleton.2 here)
      (List.forall_mem_singleton.2 inner)

theorem documentedFile_placed {value : SettingTree} (typed : (key.kind.value? value).isSome)
    (lower : ∀ name ∈ key.way, LetterCase.lowercase name = name) (later : DocumentedFile members) :
    DocumentedFile (placed key value :: members) := by
  have single : DocumentedFile [placed key value] := by
    rw [DocumentedFile, table_placed]
    exact documented_nested typed lower (List.nil_append key.way).symm
  exact documentedFile_append single later

/-- The value counts for its own setting only. -/
theorem stated?_way (other : SettingKey) (value : SettingTree) :
    stated? key.way (nested other.way value) = if other = key then some value else none := by
  rw [stated?_nested]
  · by_cases same : other = key
    · rw [if_pos (congrArg SettingKey.way same), if_pos same]
    · rw [if_neg fun h => same (SettingKey.way_injective h), if_neg same]
  · exact fun h => congrArg SettingKey.way (SettingKey.eq_of_way_prefix h)
  · exact fun h => (congrArg SettingKey.way (SettingKey.eq_of_way_prefix h)).symm

theorem statedValue?_placed {value : SettingTree} {other : SettingKey}
    (later : DocumentedFile members) :
    statedValue? (placed other value :: members) key =
      (statedValue? members key).or (if other = key then key.kind.value? value else none) := by
  have single : statedValue? [placed other value] key =
      if other = key then key.kind.value? value else none := by
    rw [statedValue?, table_placed, stated?_way]
    split <;> rfl
  rw [← single]
  exact statedValue?_append [placed other value] later

/-! ### The defaults -/

/-- The members that the layer of the defaults spells. -/
def defaultMembers : List (String × SettingTree) :=
  [placed .logLevel (.text none "info"), placed .logFormat (.text none "text"),
    placed .logOutput (.text none "stderr"), placed .outputFormat (.text none "text"),
    placed .outputPretty (.boolean none false)]

theorem spells_defaults : List.Forall₂ Spells defaults defaultMembers := by
  refine .cons (spells_placed ?_) (.cons (spells_placed ?_) (.cons (spells_placed ?_)
    (.cons (spells_placed ?_) (.cons (spells_placed ?_) .nil)))) <;> decide

theorem documented_defaults : DocumentedFile defaultMembers := by
  refine documentedFile_placed rfl ?_ (documentedFile_placed rfl ?_ (documentedFile_placed rfl ?_
    (documentedFile_placed rfl ?_ (documentedFile_placed rfl ?_ documentedFile_nil)))) <;>
    decide +kernel

/-- What the layer of the defaults states are defaults. -/
theorem defaults_agree (logFile : Bytes) (key : SettingKey) :
    (statedValue? defaultMembers key).or ((Settings.default logFile).value? key) =
      (Settings.default logFile).value? key := by
  cases key <;> rfl

/-! ### The file -/

theorem ofKey_of_documented {name : String} {value : SettingTree} (h : Documented [name] value) :
    KeyPath.ofKey name = [.member name] := by
  generalize same : [name] = way at h
  cases h with
  | setting key => cases key <;> cases same
  | table listed =>
    subst same
    simp only [SettingKey.sections, List.mem_cons, List.cons.injEq, and_true, List.not_mem_nil,
      or_false, reduceCtorEq, false_or, and_false] at listed
    obtain rfl | rfl := listed <;> decide

theorem spells_file (h : DocumentedFile file) : List.Forall₂ Spells file file :=
  List.forall₂_same.2 fun member mem =>
    .path member.1 [] member.2 (ofKey_of_documented ((h.inside List.mem_cons_self).2 member mem).2)

/-! ### The environment -/

theorem override_of_sets {name : String} (h : Sets name key) :
    variablePrefix <+: (LetterCase.lowercase name).toList :=
  ⟨_, (h ▸ key.variableName_toList).symm⟩

theorem override_of_key {name text : String} (h : keyOf? name = some text) :
    variablePrefix <+: (LetterCase.lowercase name).toList := by
  obtain ⟨rest, start, -⟩ := keyOf?_eq_some.1 h
  exact ⟨rest, start.symm⟩

theorem environmentLayer_of_key {entry : String × String} {text : String}
    (h : keyOf? entry.1 = some text) :
    environmentLayer (entry :: environment) =
      (text, valueOf entry.2) :: environmentLayer environment := by
  simp [environmentLayer, h]

theorem environmentLayer_of_no_key {entry : String × String} (h : keyOf? entry.1 = none) :
    environmentLayer (entry :: environment) = environmentLayer environment := by
  simp [environmentLayer, h]

theorem environmentValue?_cons (entry : String × String) :
    environmentValue? (entry :: environment) key =
      if Sets entry.1 key then some (meaning key.kind entry.2)
      else environmentValue? environment key := by
  by_cases h : Sets entry.1 key <;> simp [environmentValue?, h]

theorem environmentValue?_of_unset (h : ∀ entry ∈ environment, ¬ Sets entry.1 key) :
    environmentValue? environment key = none := by
  simpa [environmentValue?] using h

/-- The layer of a documented environment acts as a documented table, which states the values of the
variables. -/
theorem environment_layer (documented : DocumentedEnvironment environment)
    (spelled : SpelledModules environment) :
    ∃ members, List.Forall₂ Spells (environmentLayer environment) members ∧
      DocumentedFile members ∧
      ∀ key : SettingKey, statedValue? members key = environmentValue? environment key := by
  induction environment with
  | nil => exact ⟨[], .nil, documentedFile_nil, fun key => statedValue?_nil⟩
  | cons entry environment ih =>
    obtain ⟨overrides, once⟩ := documented
    obtain ⟨here, later⟩ := List.forall_mem_cons.1 overrides
    obtain ⟨alone, once⟩ := List.pairwise_cons.1 once
    obtain ⟨wellSpelled, spelled⟩ := List.forall_mem_cons.1 spelled
    obtain ⟨members, spells, inner, values⟩ := ih ⟨later, once⟩ spelled
    by_cases override : variablePrefix <+: (LetterCase.lowercase entry.1).toList
    · obtain ⟨key, sets, takes, lower⟩ := here override
      obtain ⟨text, named, steps⟩ := SettingKey.keyOf?_variableName (wellSpelled key sets) sets
      have typed := value?_valueOf takes
      refine ⟨placed key (valueOf entry.2) :: members, ?_,
        documentedFile_placed (typed ▸ rfl) lower inner, fun other => ?_⟩
      · rw [environmentLayer_of_key named]
        exact .cons (spells_placed steps) spells
      · rw [statedValue?_placed inner, values, environmentValue?_cons]
        by_cases same : key = other
        · subst same
          -- the table of the other variables comes later, but none of them sets this
          rw [environmentValue?_of_unset fun later mem => alone later mem key sets, if_pos rfl,
            if_pos sets, Option.none_or, typed]
        · have notSet : ¬ Sets entry.1 other := fun h =>
            same (SettingKey.variableName_injective (sets.symm.trans h))
          rw [if_neg same, if_neg notSet, Option.or_none]
    · have noKey : keyOf? entry.1 = none :=
        Option.eq_none_iff_forall_ne_some.2 fun text h => override (override_of_key h)
      refine ⟨members, ?_, inner, fun key => ?_⟩
      · rw [environmentLayer_of_no_key noKey]
        exact spells
      · rw [values, environmentValue?_cons, if_neg fun h => override (override_of_sets h)]

/-! ### All sources -/

theorem documented_laid (h : DocumentedFile members) : Documented [] (layMembers empty members) :=
  Documented.layMembers members empty documentedFile_nil List.mem_cons_self
    (h.inside List.mem_cons_self).2

theorem valueAt_laid (h : DocumentedFile members) (key : SettingKey) :
    valueAt key.way key (layMembers empty members) = statedValue? members key := by
  have leads := h.leads (List.nil_append key.way).symm
  obtain ⟨name, rest, ahead⟩ := List.exists_cons_of_ne_nil key.way_ne_nil
  rw [ahead] at leads
  have nothing : at? (name :: rest) empty = none := rfl
  rw [valueAt, statedValue?, ahead, at?_layMembers members empty leads.2, nothing, Option.or_none]

theorem settingsOf_layered (documented : DocumentedEnvironment environment)
    (spelled : SpelledModules environment) (documentedFile : DocumentedFile file) :
    Layered platform environment file (settingsOf platform environment file) := by
  obtain ⟨members, spells, inner, values⟩ := environment_layer documented spelled
  have whole : DocumentedFile ((defaultMembers ++ file) ++ members) :=
    documentedFile_append (documentedFile_append documented_defaults documentedFile) inner
  have oneTable :
      ((empty.layLayer defaults).layLayer file).layLayer (environmentLayer environment) =
        layMembers empty ((defaultMembers ++ file) ++ members) := by
    rw [layLayer_eq spells_defaults, layLayer_eq (spells_file documentedFile), layLayer_eq spells,
      layMembers_append, layMembers_append]
  obtain ⟨merged, decoded, shown⟩ :=
    settingsOf_documented (environment.defaultLogFile platform.accountHome) (documented_laid whole)
  refine ⟨merged, fun key => ?_, ?_⟩
  · rw [shown, valueAt_laid whole, statedValue?_append _ inner,
      statedValue?_append _ documentedFile, values, ← Option.or_assoc, Option.or_assoc,
      defaults_agree]
  · simp only [settingsOf, oneTable, decoded]
    rfl

/-- Loading merges the sources, from the user's global file, if there is one, or from a file that is
asked for. -/
theorem loaded_settings_layered (platform : Platform) (fs : FileSystem)
    (documented : DocumentedEnvironment environment) (spelled : SpelledModules environment) :
    ((∀ path ∈ environment.globalFile platform.accountHome,
        ConfigurationFiles.leadsSomewhere fs path = false) →
      Layered platform environment [] (load platform fs environment)) ∧
    (∀ path file, environment.globalFile platform.accountHome = some path →
      ConfigurationFiles.leadsSomewhere fs path = true →
      ConfigurationFiles.optionalLayer platform fs path = .ok file → DocumentedFile file →
      Layered platform environment file (load platform fs environment)) ∧
    (∀ path file, ConfigurationFiles.layer platform fs path = .ok file → DocumentedFile file →
      Layered platform environment file (loadFrom platform fs environment path)) := by
  refine ⟨fun absent => ?_, fun path file found present read documentedFile => ?_,
    fun path file read documentedFile => ?_⟩
  · rw [load, globalLayer_of_absent absent]
    exact settingsOf_layered documented spelled documentedFile_nil
  · rw [load, globalLayer_of_present found present, read]
    exact settingsOf_layered documented spelled documentedFile
  · rw [loadFrom, read]
    exact settingsOf_layered documented spelled documentedFile

/-! ### A format in the file that is unknown, and overridden -/

theorem once_of_nodup (h : (environment.map fun entry => LetterCase.lowercase entry.1).Nodup) :
    environment.Pairwise fun a b => ∀ key : SettingKey, Sets a.1 key → ¬ Sets b.1 key :=
  (List.pairwise_map.1 h).imp fun different _ first second => different (first.trans second.symm)

theorem spelled_of_sets {name : String} (sets : Sets name key) (spelled : key.Spelled) :
    ∀ other : SettingKey, Sets name other → other.Spelled := fun _ h =>
  SettingKey.variableName_injective (sets.symm.trans h) ▸ spelled

def emptySystem : FileSystem := ⟨.directory 0o755 [], [], true⟩

def configuredSystem : FileSystem where
  root := .directory 0o755 [(Utf8Text.utf8 "dirtree",
    .directory 0o755 [(Utf8Text.utf8 "config.toml",
      .file 0o644 (Utf8Text.utf8 "[output]\nformat = \"yaml\"\n"))])]
  workingDirectory := []
  heedsModes := true

/-- The user of this platform has a home directory on record. -/
def rootPlatform : Platform := .plain (some (Utf8Text.utf8 "/root"))

def overridingEnvironment : Environment :=
  [("XDG_CONFIG_HOME", "/"), ("DIRTREE__OUTPUT__FORMAT", "json"),
    ("DIRTREE__LOGGING__MODULES__WALK", "debug")]

def overriddenFile : List (String × SettingTree) :=
  [("output", .table (some "dirtree/config.toml")
    [("format", .text (some "dirtree/config.toml") "yaml")])]

theorem documented_overridingEnvironment : DocumentedEnvironment overridingEnvironment where
  overrides := by
    rintro entry (- | ⟨-, - | ⟨-, - | ⟨-, ⟨⟩⟩⟩⟩) override
    · exact absurd override (by decide +kernel)
    · exact ⟨.outputFormat, by decide +kernel, (by decide +kernel : IsPlain "json"),
        by decide +kernel⟩
    · exact ⟨.logModule "walk", by decide +kernel, (by decide +kernel : IsPlain "debug"),
        by decide +kernel⟩
  once := once_of_nodup (by decide +kernel)

theorem spelledModules_overridingEnvironment : SpelledModules overridingEnvironment := by
  rintro entry (- | ⟨-, - | ⟨-, - | ⟨-, ⟨⟩⟩⟩⟩) key sets
  · exact absurd (override_of_sets sets) (by decide +kernel)
  · exact spelled_of_sets (by decide +kernel : Sets "DIRTREE__OUTPUT__FORMAT" .outputFormat)
      trivial key sets
  · exact spelled_of_sets
      (by decide +kernel : Sets "DIRTREE__LOGGING__MODULES__WALK" (.logModule "walk"))
      (SettingKey.IsWord.of_plain (by decide +kernel)) key sets

theorem documented_overriddenFile : DocumentedFile overriddenFile := by
  have format : Documented ["output", "format"] (.text (some "dirtree/config.toml") "yaml") :=
    .setting .outputFormat rfl
  have output : Documented ["output"] (.table (some "dirtree/config.toml")
      [("format", .text (some "dirtree/config.toml") "yaml")]) :=
    .table (by decide) _ (by decide +kernel) (List.forall_mem_singleton.2 format)
  exact .table List.mem_cons_self _ (by decide +kernel) (List.forall_mem_singleton.2 output)

/-- The global file of `overridingEnvironment`. -/
def overriddenPath : Bytes := Utf8Text.utf8 "/dirtree/config.toml"

theorem unknown_format_overridden :
    DocumentedEnvironment overridingEnvironment ∧ SpelledModules overridingEnvironment ∧
    DocumentedFile overriddenFile ∧
    overridingEnvironment.globalFile (some (Utf8Text.utf8 "/root")) = some overriddenPath ∧
    (ConfigurationFiles.leadsSomewhere emptySystem overriddenPath = false ∧
      Layered rootPlatform overridingEnvironment []
        (load rootPlatform emptySystem overridingEnvironment)) ∧
    (ConfigurationFiles.leadsSomewhere configuredSystem overriddenPath = true ∧
      ConfigurationFiles.optionalLayer rootPlatform configuredSystem overriddenPath =
        .ok overriddenFile ∧
      Layered rootPlatform overridingEnvironment overriddenFile
        (load rootPlatform configuredSystem overridingEnvironment)) ∧
    ConfigurationFiles.layer rootPlatform configuredSystem overriddenPath = .ok overriddenFile ∧
      Layered rootPlatform overridingEnvironment overriddenFile
        (loadFrom rootPlatform configuredSystem overridingEnvironment overriddenPath) := by
  have global : overridingEnvironment.globalFile (some (Utf8Text.utf8 "/root")) =
      some overriddenPath := by decide +kernel
  have absent : ConfigurationFiles.leadsSomewhere emptySystem overriddenPath = false := by
    decide +kernel
  have present : ConfigurationFiles.leadsSomewhere configuredSystem overriddenPath = true := by
    decide +kernel
  have optional : ConfigurationFiles.optionalLayer rootPlatform configuredSystem overriddenPath =
      .ok overriddenFile := by cbv
  have required : ConfigurationFiles.layer rootPlatform configuredSystem overriddenPath =
      .ok overriddenFile := by cbv
  have documented := documented_overridingEnvironment
  have spelled := spelledModules_overridingEnvironment
  obtain ⟨withoutFile, -, -⟩ :=
    loaded_settings_layered rootPlatform emptySystem documented spelled
  obtain ⟨-, withGlobal, withAsked⟩ :=
    loaded_settings_layered rootPlatform configuredSystem documented spelled
  have absentGlobal : ∀ path ∈ overridingEnvironment.globalFile rootPlatform.accountHome,
      ConfigurationFiles.leadsSomewhere emptySystem path = false := by
    intro path found
    obtain rfl : overriddenPath = path := Option.some.inj (global.symm.trans found)
    exact absent
  exact ⟨documented, spelled, documented_overriddenFile, global,
    ⟨absent, withoutFile absentGlobal⟩,
    ⟨present, optional, withGlobal _ _ global present optional documented_overriddenFile⟩, required,
    withAsked _ _ required documented_overriddenFile⟩

/-! ### A module whose name is a path -/

def nestedModuleEnvironment : Environment := [("DIRTREE__LOGGING__MODULES__DIRTREE::TREE", "debug")]

theorem documented_nestedModuleEnvironment : DocumentedEnvironment nestedModuleEnvironment where
  overrides := by
    rintro entry (- | ⟨-, ⟨⟩⟩) override
    exact ⟨.logModule "dirtree::tree", by decide +kernel, (by decide +kernel : IsPlain "debug"),
      by decide +kernel⟩
  once := once_of_nodup (by decide +kernel)

/-- A variable does not reach a module inside another one, whose name no key spells. -/
theorem nested_module_not_overridden :
    ¬ ∀ (platform : Platform) (fs : FileSystem) (environment : Environment),
      DocumentedEnvironment environment →
      (∀ path ∈ environment.globalFile platform.accountHome,
        ConfigurationFiles.leadsSomewhere fs path = false) →
      Layered platform environment [] (load platform fs environment) := by
  intro layered
  obtain ⟨merged, values, outcome⟩ := layered (.plain none) emptySystem nestedModuleEnvironment
    documented_nestedModuleEnvironment (by decide +kernel)
  have loaded : (load (.plain none) emptySystem nestedModuleEnvironment).toOption =
      some (.default (Utf8Text.utf8 "dirtree.log")) := by decide +kernel
  have found : environmentValue? nestedModuleEnvironment (.logModule "dirtree::tree") =
      some (.text "debug") := by decide +kernel
  rw [outcome] at loaded
  have value := values (.logModule "dirtree::tree")
  split at loaded
  · cases loaded
    rw [found] at value
    cases value
  · cases loaded

end LayeredSettings
end HashedTree
