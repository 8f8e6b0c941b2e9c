import HashedTree.ConfigurationLayers

/-! # The documented settings and the names they go by

A setting stands at the end of a way through the tables of a file, and a variable of the environment
has its name where the names on this way are put together by two underscores.
-/
namespace HashedTree
open ByteBlocks

inductive SettingKey where
  | logLevel
  | logFormat
  | logOutput
  | logFile
  | logColor
  | logModule (name : String)
  | outputFormat
  | outputPretty
  deriving DecidableEq

inductive SettingKind where
  | text
  | path
  | truth
  deriving DecidableEq

/-- The value of a setting, of each kind. -/
inductive SettingValue where
  | text (value : String)
  | path (value : Bytes)
  | truth (value : Bool)
  deriving DecidableEq

namespace SettingKey

def kind : SettingKey → SettingKind
  | .logFile => .path
  | .logColor | .outputPretty => .truth
  | .logLevel | .logFormat | .logOutput | .logModule _ | .outputFormat => .text

def way : SettingKey → List String
  | .logLevel => ["logging", "level"]
  | .logFormat => ["logging", "format"]
  | .logOutput => ["logging", "output"]
  | .logFile => ["logging", "file"]
  | .logColor => ["logging", "color"]
  | .logModule name => ["logging", "modules", name]
  | .outputFormat => ["output", "format"]
  | .outputPretty => ["output", "pretty"]

/-- The ways to the tables that hold the settings. -/
def sections : List (List String) := [[], ["logging"], ["logging", "modules"], ["output"]]

/-- The name of the variable for a setting, in lowercase. -/
def variableName (key : SettingKey) : String := "dirtree__" ++ String.intercalate "__" key.way

theorem eq_of_way_prefix {key other : SettingKey} (h : key.way <+: other.way) : key = other := by
  cases key <;> cases other <;> simp [way] at h ⊢
  exact h

theorem way_injective {key other : SettingKey} (h : key.way = other.way) : key = other :=
  eq_of_way_prefix (h ▸ List.prefix_refl _)

theorem way_ne_nil (key : SettingKey) : key.way ≠ [] := by
  cases key <;> exact List.cons_ne_nil _ _

theorem way_not_section (key : SettingKey) : key.way ∉ sections := by
  cases key <;> simp [way, sections]

theorem listed_of_prefix {whole before : List String} (listed : whole ∈ sections)
    (h : before <+: whole) : before ∈ sections := by
  simp only [sections, List.mem_cons, List.not_mem_nil, or_false] at listed
  obtain rfl | rfl | rfl | rfl := listed <;>
    simp only [List.prefix_cons_iff, List.prefix_nil] at h <;> grind [sections]

theorem dropLast_listed (key : SettingKey) : key.way.dropLast ∈ sections := by
  cases key <;> simp [way, sections]

/-- On the way to a setting stand sections. -/
theorem listed_of_way {key : SettingKey} {before names : List String} {name : String}
    (ahead : key.way = before ++ name :: names) : before ∈ sections := by
  refine listed_of_prefix key.dropLast_listed ?_
  rw [ahead, List.dropLast_append_of_ne_nil (List.cons_ne_nil name names)]
  exact List.prefix_append _ _

/-! ### From the name of a variable to a way -/

theorem variableName_toList (key : SettingKey) :
    key.variableName.toList = ConfigurationLayers.variablePrefix ++
      List.intercalate ['_', '_'] (key.way.map String.toList) := by
  rw [variableName, String.toList_append, String.toList_intercalate]
  rfl

theorem variableName_injective {key other : SettingKey}
    (h : key.variableName = other.variableName) : key = other := by
  have same := congrArg String.toList h
  rw [variableName_toList, variableName_toList, List.append_cancel_left_eq] at same
  cases key <;> cases other <;> simp [way, List.intercalate_cons_cons] at same ⊢
  exact String.toList_inj.1 same

/-- A name can stand in a key that is a path, and no part of it is taken for what separates two
names. -/
structure IsWord (name : String) : Prop where
  nonempty : name ≠ ""
  spelled : name.toList.all KeyPath.isNameChar
  joined : ¬ ['_', '_'] <:+: name.toList

/-- A name without underscores. -/
theorem IsWord.of_plain {name : String}
    (h : name ≠ "" ∧ name.toList.all KeyPath.isNameChar ∧ '_' ∉ name.toList) : IsWord name :=
  ⟨h.1, h.2.1, fun inside => h.2.2 (inside.subset List.mem_cons_self)⟩

def Spelled : SettingKey → Prop
  | .logModule name => IsWord name
  | _ => True

theorem dotted_cons {c : Char} {text : List Char}
    (h : ∀ rest, c = '_' → text = '_' :: rest → False) :
    ConfigurationLayers.dotted (c :: text) = c :: ConfigurationLayers.dotted text :=
  ConfigurationLayers.dotted.eq_2 c text h

theorem dotted_of_joined {text : List Char} (h : ¬ ['_', '_'] <:+: text) :
    ConfigurationLayers.dotted text = text := by
  induction text with
  | nil => rfl
  | cons c text ih =>
    rw [dotted_cons, ih fun inside => h (inside.trans (List.suffix_cons c text).isInfix)]
    rintro rest rfl rfl
    exact h (List.prefix_append ['_', '_'] rest).isInfix

theorem dotted_separated {text rest : List Char} (h : '_' ∉ text) :
    ConfigurationLayers.dotted (text ++ '_' :: '_' :: rest) =
      text ++ '.' :: ConfigurationLayers.dotted rest := by
  induction text with
  | nil => rfl
  | cons c text ih =>
    obtain ⟨here, later⟩ := not_or.1 fun g => h (List.mem_cons.2 g)
    rw [List.cons_append, dotted_cons fun _ same _ => here same.symm, ih later, List.cons_append]

theorem dotted_intercalate : ∀ {words : List String}, (∀ word ∈ words, IsWord word) →
    (∀ word ∈ words.dropLast, '_' ∉ word.toList) →
    ConfigurationLayers.dotted (List.intercalate ['_', '_'] (words.map String.toList)) =
      List.intercalate ['.'] (words.map String.toList)
  | [], _, _ => rfl
  | [word], areWords, _ => by
    simpa using dotted_of_joined (areWords word (List.mem_singleton_self word)).joined
  | word :: next :: words, areWords, plain => by
    obtain ⟨here, later⟩ := List.forall_mem_cons.1 plain
    have rest := dotted_intercalate (List.forall_mem_cons.1 areWords).2 later
    rw [List.map_cons, List.map_cons] at *
    rw [List.intercalate_cons_cons, List.intercalate_cons_cons, List.append_assoc,
      List.append_assoc, ← rest]
    exact dotted_separated here

theorem stepsFrom_name {text before rest : List Char}
    (spelled : ∀ c ∈ text, KeyPath.isNameChar c) :
    KeyPath.stepsFrom (.name before) (text ++ rest) =
      KeyPath.stepsFrom (.name (text.reverse ++ before)) rest := by
  induction text generalizing before with
  | nil => rfl
  | cons c text ih =>
    obtain ⟨here, later⟩ := List.forall_mem_cons.1 spelled
    rw [List.cons_append, KeyPath.stepsFrom, if_pos here, ih later, List.reverse_cons,
      List.append_assoc, List.singleton_append]

theorem stepsFrom_last {name : String} (h : IsWord name) :
    KeyPath.stepsFrom (.name []) name.toList = some [.member name] := by
  rw [← List.append_nil name.toList, stepsFrom_name (List.all_eq_true.1 h.spelled),
    List.append_nil, KeyPath.stepsFrom, List.reverse_reverse, String.ofList_toList]
  exact fun none => h.nonempty (by simpa using none)

theorem stepsFrom_before {name : String} {rest : List Char} (h : IsWord name) :
    KeyPath.stepsFrom (.name []) (name.toList ++ '.' :: rest) =
      (KeyPath.stepsFrom (.name []) rest).map (.member name :: ·) := by
  have something : name.toList.reverse.isEmpty = false := by simpa using h.nonempty
  rw [stepsFrom_name (List.all_eq_true.1 h.spelled), List.append_nil, KeyPath.stepsFrom, something]
  simp [show KeyPath.isNameChar '.' = false from rfl]

theorem stepsFrom_intercalate : ∀ {words : List String}, words ≠ [] →
    (∀ word ∈ words, IsWord word) →
    KeyPath.stepsFrom (.name []) (List.intercalate ['.'] (words.map String.toList)) =
      some (words.map .member)
  | [word], _, areWords => by
    simpa using stepsFrom_last (areWords word (List.mem_singleton_self word))
  | word :: next :: words, _, areWords => by
    obtain ⟨here, later⟩ := List.forall_mem_cons.1 areWords
    have rest := stepsFrom_intercalate (List.cons_ne_nil next words) later
    rw [List.map_cons, List.map_cons] at *
    rw [List.intercalate_cons_cons, List.append_assoc, List.singleton_append,
      stepsFrom_before here, rest]
    rfl

/-- The names on the way to a setting, apart from that of a module. -/
def fixedNames : List String :=
  ["logging", "level", "format", "output", "file", "color", "modules", "pretty"]

theorem fixedNames_plain : ∀ word ∈ fixedNames,
    word ≠ "" ∧ word.toList.all KeyPath.isNameChar ∧ '_' ∉ word.toList := by
  decide +kernel

theorem mem_way {key : SettingKey} {word : String} (h : word ∈ key.way) :
    word ∈ fixedNames ∨ key = .logModule word := by
  cases key <;> simp [way, fixedNames] at h ⊢ <;> grind

theorem way_words {key : SettingKey} (spelled : key.Spelled) : ∀ word ∈ key.way, IsWord word := by
  intro word h
  obtain fixed | rfl := mem_way h
  · exact .of_plain (fixedNames_plain word fixed)
  · exact spelled

theorem way_plain (key : SettingKey) : ∀ word ∈ key.way.dropLast, '_' ∉ word.toList := by
  intro word h
  have fixed : word ∈ fixedNames := by
    cases key <;> simp [way, fixedNames] at h ⊢ <;> grind
  exact (fixedNames_plain word fixed).2.2

/-- The variable for a setting spells the way to it. -/
theorem keyOf?_variableName {key : SettingKey} {name : String} (spelled : key.Spelled)
    (h : LetterCase.lowercase name = key.variableName) :
    ∃ text, ConfigurationLayers.keyOf? name = some text ∧
      KeyPath.ofKey text = key.way.map .member := by
  refine ⟨_, ConfigurationLayers.keyOf?_eq_some.2 ⟨_, h ▸ key.variableName_toList, rfl⟩, ?_⟩
  rw [KeyPath.ofKey, String.toList_ofList, dotted_intercalate (way_words spelled) key.way_plain,
    stepsFrom_intercalate key.way_ne_nil (way_words spelled)]
  rfl

end SettingKey
end HashedTree
