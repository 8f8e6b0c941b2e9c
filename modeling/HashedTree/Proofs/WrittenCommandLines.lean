import HashedTree.Proofs.CommandArguments

/-!
# Command lines as they are written

A command line can be written in many orders. Its general options stand before the name of the
command or behind it, and behind it they mix with the options of the command and with the arguments
without a name, which alone keep their order. An argument without a name that starts with a hyphen
must stand behind `--`, and all options before. Each such writing is read back as the same command
line. The only exception is a path that is empty, which is refused wherever it stands.
-/
namespace HashedTree.WrittenCommandLines
open ByteBlocks Utf8Text CommandLine CommandArguments Outcomes

def commandName : TreeCommand → String
  | .build .. => "build"
  | .hash .. => "hash"
  | .lookup .. => "lookup"

def directory : TreeCommand → Bytes
  | .build path _ _ | .hash path | .lookup path _ _ => path

/-- The option with its value, if it has one. -/
def valued (name : String) (content : Content) (value : Option Bytes) : List Given :=
  value.toList.map fun text => (option name content, text)

/-- A flag that is set has no text. -/
def mark (set : Bool) : Option Bytes := if set then some [] else none

/-- The general options that are used. -/
def generalValues (line : CommandLine) : List Given :=
  valued "config" .path line.config ++ (valued "verbose" .flag (mark line.verbose) ++
    (valued "log-level" .text (line.logLevel.map utf8) ++
      (valued "log-format" .text (line.logFormat.map utf8) ++
        (valued "log-output" .text (line.logOutput.map utf8) ++
          valued "log-file" .path line.logFile))))

/-- The options of the command that are used. -/
def ownValues : TreeCommand → List Given
  | .build _ format pretty =>
    valued "format" .text (format.map utf8) ++ valued "pretty" .flag (mark pretty)
  | .hash _ => []
  | .lookup _ _ format => valued "format" .text (format.map utf8)

/-- The arguments without a name, in their order. -/
def placedValues : TreeCommand → List Given
  | .build path _ _ | .hash path => [(positional "path" .path, path)]
  | .lookup path entry _ =>
    [(positional "path" .path, path), (positional "entry" .text, utf8 entry)]

def allValues (line : CommandLine) : List Given :=
  generalValues line ++ (ownValues line.command ++ placedValues line.command)

/-- The ways to write a command line. -/
inductive Writes (line : CommandLine) : List Bytes → Prop where
  | mixed (before behind : List Given) (once : (before ++ behind).Perm (allValues line))
      (general : ∀ given ∈ before, given ∈ generalValues line)
      (inOrder : behind.filter (!·.1.named) = placedValues line.command)
      (plain : ∀ given ∈ placedValues line.command, given.2.head? ≠ some 45) :
      Writes line (before.map spelled ++ utf8 (commandName line.command) :: behind.map spelled)
  | separated (before behind : List Given)
      (once : (before ++ behind).Perm (generalValues line ++ ownValues line.command))
      (general : ∀ given ∈ before, given ∈ generalValues line) :
      Writes line (before.map spelled ++ utf8 (commandName line.command) ::
        (behind.map spelled ++ utf8 "--" :: (placedValues line.command).map spelled))

/-- Every path of the command line is one. -/
def PathsGiven (line : CommandLine) : Prop :=
  directory line.command ≠ [] ∧ line.config ≠ some [] ∧ line.logFile ≠ some []

instance (line : CommandLine) : Decidable (PathsGiven line) :=
  inferInstanceAs (Decidable (_ ∧ _ ∧ _))

section Values
variable {name wanted : String} {content : Content} {value : Option Bytes} {text : Bytes}
  {given : Given}

theorem mem_valued :
    given ∈ valued name content value ↔
      ∃ text, value = some text ∧ (option name content, text) = given := by
  simp [valued, List.mem_map]

@[simp] theorem find?_nil : Values.find? [] wanted = none := rfl

theorem find?_valued (rest : Values) :
    Values.find? ((valued name content value).map stored ++ rest) wanted =
      if name = wanted then value.or (rest.find? wanted) else rest.find? wanted := by
  cases value with
  | none => simp [valued]
  | some text =>
    by_cases h : name = wanted
    · simp [valued, Values.find?, stored, option, h]
    · simp [valued, Values.find?, stored, option, h]

theorem find?_placed (rest : Values) :
    Values.find? (stored (positional name content, text) :: rest) wanted =
      if name = wanted then some text else rest.find? wanted := by
  by_cases h : name = wanted
  · simp [Values.find?, stored, positional, h]
  · simp [Values.find?, stored, positional, h]

/-- A value is found by its name, if no other has that name. -/
theorem find?_eq_some {values : Values} (distinct : (values.map Prod.fst).Nodup) :
    values.find? name = some text ↔ (name, text) ∈ values := by
  induction values with
  | nil => simp [Values.find?]
  | cons kept values ih =>
    obtain ⟨other, first⟩ := kept
    rw [List.map_cons, List.nodup_cons] at distinct
    by_cases same : other = name
    · subst same
      have absent : (other, text) ∉ values := by
        intro h
        exact distinct.1 (List.mem_map.mpr ⟨(other, text), h, rfl⟩)
      simp [Values.find?, absent, eq_comm]
    · have later : Values.find? ((other, first) :: values) name = Values.find? values name := by
        simp [Values.find?, same]
      rw [later, ih distinct.2]
      simp [Ne.symm same]

theorem find?_perm {values values' : Values} (h : values.Perm values')
    (distinct : (values.map Prod.fst).Nodup) : values.find? name = values'.find? name := by
  apply Option.ext
  intro text
  rw [find?_eq_some distinct, find?_eq_some ((h.map Prod.fst).nodup_iff.mp distinct), h.mem_iff]

/-- The order of the values does not matter. -/
theorem ofValues_perm {values values' : Values} (h : values.Perm values')
    (distinct : (values.map Prod.fst).Nodup) : ofValues name values = ofValues name values' := by
  have hfind : values.find? = values'.find? := funext fun _ => find?_perm h distinct
  simp only [ofValues, commandOf, Values.text?, hfind]

@[simp] theorem isSome_mark (set : Bool) : (mark set).isSome = set := by
  cases set <;> rfl

end Values

section Lines
variable (line : CommandLine)

theorem names_valued (name : String) (content : Content) (value : Option Bytes) :
    ((valued name content value).map fun given => given.1.name).Sublist [name] := by
  cases value with
  | none => simp [valued]
  | some text => simp [valued, option]

theorem names_generalValues : ((generalValues line).map fun given => given.1.name).Sublist
    ["config", "verbose", "log-level", "log-format", "log-output", "log-file"] := by
  simp only [generalValues, List.map_append]
  repeat' apply List.Sublist.append (names_valued _ _ _)
  exact names_valued _ _ _

theorem names_ownValues (command : TreeCommand) :
    ((ownValues command).map fun given => given.1.name).Sublist ["format", "pretty"] := by
  cases command with
  | build path format pretty =>
    rw [ownValues, List.map_append]
    exact (names_valued _ _ _).append (names_valued _ _ _)
  | hash path => simp [ownValues]
  | lookup path entry format => exact (names_valued _ _ _).trans (by decide)

theorem names_placedValues (command : TreeCommand) :
    ((placedValues command).map fun given => given.1.name).Sublist ["path", "entry"] := by
  cases command <;> simp [placedValues, positional]

theorem distinct_allValues : ((allValues line).map fun given => given.1.name).Nodup := by
  have hown := (names_ownValues line.command).append (names_placedValues line.command)
  have hall := (names_generalValues line).append hown
  rw [allValues, List.map_append, List.map_append]
  exact hall.nodup (by decide)

theorem ofValues_allValues :
    ofValues (commandName line.command) ((allValues line).map stored) = line := by
  obtain ⟨command, config, verbose, logLevel, logFormat, logOutput, logFile⟩ := line
  cases command <;>
    simp [ofValues, commandOf, commandName, Values.text?, allValues, generalValues, ownValues,
      placedValues, find?_valued, find?_placed, Function.comp_def]

theorem refused_valued (name : String) (content : Content) (value : Option Bytes) :
    (valued name content value).any refused = true ↔ content = .path ∧ value = some [] := by
  cases value with
  | none => simp [valued]
  | some text => simp [valued, refused, option]

theorem refused_allValues : (allValues line).any refused = true ↔ ¬PathsGiven line := by
  have general : (generalValues line).any refused = true ↔
      line.config = some [] ∨ line.logFile = some [] := by
    simp only [generalValues, List.any_append, Bool.or_eq_true, refused_valued]
    simp
  have own : ¬(ownValues line.command).any refused = true := by
    cases line.command <;> simp [ownValues, refused_valued, -List.any_eq_true]
  have placed : (placedValues line.command).any refused = true ↔ directory line.command = [] := by
    cases line.command <;> simp [placedValues, directory, refused, positional]
  rw [allValues, List.any_append, List.any_append, Bool.or_eq_true, Bool.or_eq_true, general,
    placed, PathsGiven]
  grind

/-- The values of a command line, read in any order. -/
theorem outcome_of_perm {givens : List Given} (once : givens.Perm (allValues line)) :
    (outcome givens).map (ofValues (commandName line.command)) =
      if PathsGiven line then .ok line else .error .invalidValue := by
  have distinct : ((givens.map stored).map Prod.fst).Nodup := by
    rw [List.map_map]
    exact (once.map _).nodup_iff.mpr (distinct_allValues line)
  have hrefused : givens.any refused = true ↔ ¬PathsGiven line := by
    rw [once.any_eq, refused_allValues]
  by_cases paths : PathsGiven line
  · rw [outcome, if_neg (by simpa [hrefused] using paths), if_pos paths, ok_map,
      ofValues_perm (once.map stored) distinct, ofValues_allValues]
  · rw [outcome, if_pos (hrefused.mpr paths), if_neg paths, error_map]

end Lines

/-- The option is one of these and has a text that it can have. -/
structure Admitted (options : List Argument) (given : Given) : Prop where
  named : given.1.named = true
  listed : given.1 ∈ options
  bare : given.1.content = .flag → given.2 = []
  readable : Readable given

section Options
variable {options : List Argument} {name : String} {content : Content} {value : Option Bytes}

theorem admitted_valued (listed : option name content ∈ options)
    (hvalue : ∀ text, value = some text →
      (content = .flag → text = []) ∧ (content = .text → (ofUtf8? text).isSome)) :
    ∀ given ∈ valued name content value, Admitted options given := by
  intro given hgiven
  obtain ⟨text, hsome, rfl⟩ := mem_valued.mp hgiven
  obtain ⟨bare, readable⟩ := hvalue text hsome
  exact ⟨rfl, listed, bare, readable⟩

theorem admitted_path (listed : option name .path ∈ options) :
    ∀ given ∈ valued name .path value, Admitted options given :=
  admitted_valued listed (by simp)

theorem admitted_flag (listed : option name .flag ∈ options) {set : Bool} :
    ∀ given ∈ valued name .flag (mark set), Admitted options given :=
  admitted_valued listed (by simp [mark])

theorem admitted_text (listed : option name .text ∈ options) {value : Option String} :
    ∀ given ∈ valued name .text (value.map utf8), Admitted options given := by
  apply admitted_valued listed
  intro text hsome
  obtain ⟨value, -, rfl⟩ := Option.map_eq_some_iff.mp hsome
  simp

theorem admitted_generalValues (line : CommandLine) :
    ∀ given ∈ generalValues line, Admitted globalOptions given := by
  simp only [generalValues, List.forall_mem_append]
  exact ⟨admitted_path (by decide), admitted_flag (by decide), admitted_text (by decide),
    admitted_text (by decide), admitted_text (by decide), admitted_path (by decide)⟩

theorem admitted_ownValues (command : TreeCommand) :
    ∀ given ∈ ownValues command, Admitted (commandLevel (commandName command)).options given := by
  cases command with
  | build path format pretty =>
    simp only [ownValues, commandName, List.forall_mem_append]
    exact ⟨admitted_text (by decide), admitted_flag (by decide)⟩
  | hash path => simp [ownValues]
  | lookup path entry format =>
    rw [commandName]
    exact admitted_text (by decide)

end Options

section Written
variable {line : CommandLine} {args : List Bytes} {before behind : List Given}

theorem commandName_mem (command : TreeCommand) :
    commandName command ∈ ["build", "hash", "lookup"] := by
  cases command <;> simp [commandName]

theorem commandName_ne_help (command : TreeCommand) : commandName command ≠ "help" := by
  cases command <;> simp [commandName]

theorem globalOptions_subset (name : String) : globalOptions ⊆ (commandLevel name).options := by
  unfold commandLevel
  split
  · exact List.subset_append_left _ _
  · split
    · exact List.Subset.refl _
    · exact List.subset_append_left _ _

theorem places_placedValues (command : TreeCommand) :
    (placedValues command).map Prod.fst = (commandLevel (commandName command)).positionals := by
  cases command <;> rfl

theorem unnamed_placedValues (command : TreeCommand) :
    ∀ given ∈ placedValues command, given.1.named = false ∧ Readable given := by
  cases command <;> simp [placedValues, positional, Readable]

/-- Every option that is used can stand behind the name of the command. -/
theorem admitted_options (line : CommandLine) :
    ∀ given ∈ generalValues line ++ ownValues line.command,
      Admitted (commandLevel (commandName line.command)).options given := by
  intro given hgiven
  rw [List.mem_append] at hgiven
  rcases hgiven with general | own
  · obtain ⟨named, listed, bare, readable⟩ := admitted_generalValues line given general
    exact ⟨named, globalOptions_subset _ listed, bare, readable⟩
  · exact admitted_ownValues line.command given own

theorem admitted_or_placed {given : Given} (h : given ∈ allValues line) :
    Admitted (commandLevel (commandName line.command)).options given ∨
      given ∈ placedValues line.command := by
  rw [allValues, ← List.append_assoc, List.mem_append] at h
  rcases h with used | placed
  · exact .inl (admitted_options line given used)
  · exact .inr placed

theorem readable_allValues {given : Given} (h : given ∈ allValues line) : Readable given := by
  rcases admitted_or_placed h with admitted | placed
  · exact admitted.readable
  · exact (unnamed_placedValues _ given placed).2

theorem fits_of_options {level : Level} {givens : List Given}
    (admitted : ∀ given ∈ givens, Admitted level.options given) : Fits level false 0 givens := by
  apply fits_of_arranged
  · intro given h named
    exact ⟨rfl, (admitted given h).listed, (admitted given h).bare⟩
  · intro given h unnamed
    simp [(admitted given h).named] at unnamed
  · have noneUnnamed : givens.filter (!·.1.named) = [] := by
      rw [List.filter_eq_nil_iff]
      intro given h
      simp [(admitted given h).named]
    rw [noneUnnamed]
    exact List.nil_prefix

theorem fits_mixed (used : behind ⊆ allValues line)
    (inOrder : behind.filter (!·.1.named) = placedValues line.command)
    (plain : ∀ given ∈ placedValues line.command, given.2.head? ≠ some 45) :
    Fits (commandLevel (commandName line.command)) false 0 behind := by
  apply fits_of_arranged
  · intro given h named
    rcases admitted_or_placed (used h) with admitted | placed
    · exact ⟨rfl, admitted.listed, admitted.bare⟩
    · simp [(unnamed_placedValues _ given placed).1] at named
  · intro given h unnamed
    right
    apply plain given
    rw [← inOrder]
    exact List.mem_filter.mpr ⟨h, by simp [unnamed]⟩
  · rw [inOrder, places_placedValues]
    exact List.prefix_rfl

/-- Taken as they are, the arguments without a name may start with a hyphen. -/
theorem fits_placedValues (command : TreeCommand) :
    Fits (commandLevel (commandName command)) true 0 (placedValues command) := by
  have unnamed := unnamed_placedValues command
  apply fits_of_arranged
  · intro given h named
    simp [(unnamed given h).1] at named
  · intro given h _
    exact .inl rfl
  · have allUnnamed : (placedValues command).filter (!·.1.named) = placedValues command := by
      rw [List.filter_eq_self]
      intro given h
      simp [(unnamed given h).1]
    rw [allUnnamed, places_placedValues]
    exact List.prefix_rfl

theorem distinct_parts {values : List Given} (once : (before ++ values).Perm (allValues line)) :
    (before.map fun given => given.1.name).Nodup ∧
      (values.map fun given => given.1.name).Nodup := by
  have distinct := (once.map fun given => given.1.name).nodup_iff.mpr (distinct_allValues line)
  rw [List.map_append, List.nodup_append] at distinct
  exact ⟨distinct.1, distinct.2.1⟩

/-- The command line is read from its values, however they are arranged around its name. -/
theorem parse_of_values {rest : List Bytes} {values : List Given}
    (general : ∀ given ∈ before, given ∈ generalValues line)
    (once : (before ++ values).Perm (allValues line))
    (h : readCommand (commandName line.command) rest = outcome values) :
    parse (before.map spelled ++ utf8 (commandName line.command) :: rest) =
      if PathsGiven line then .ok line else .error .invalidValue := by
  have command : commandName line.command ∈ programLevel.commands := by
    cases line.command <;> simp [commandName, programLevel]
  have admitted : ∀ given ∈ before, Admitted programLevel.options given := by
    intro given h
    exact admitted_generalValues line given (general given h)
  have readable : ∀ given ∈ before, Readable given := by
    intro given h
    exact (admitted given h).readable
  rw [parse_of_outcome command (commandName_ne_help line.command) (fits_of_options admitted)
    readable (distinct_parts once).1 h]
  exact outcome_of_perm line (List.perm_append_comm.trans once)

/-- No argument without a name is missing. -/
theorem places_found {values : List Given} (h : placedValues line.command ⊆ values) :
    ∀ a ∈ (commandLevel (commandName line.command)).positionals, ∃ given ∈ values, given.1 = a := by
  intro a ha
  rw [← places_placedValues] at ha
  obtain ⟨given, hgiven, rfl⟩ := List.mem_map.mp ha
  exact ⟨given, h hgiven, rfl⟩

theorem readCommand_mixed (once : (before ++ behind).Perm (allValues line))
    (inOrder : behind.filter (!·.1.named) = placedValues line.command)
    (plain : ∀ given ∈ placedValues line.command, given.2.head? ≠ some 45) :
    readCommand (commandName line.command) (behind.map spelled) = outcome behind := by
  have used : behind ⊆ allValues line := fun given h => once.subset (List.mem_append_right before h)
  have readable : ∀ given ∈ behind, Readable given := fun given h => readable_allValues (used h)
  have hread := levelOutcome_spelled (legible_commandLevel (commandName_mem line.command))
    (fits_mixed used inOrder plain) readable (distinct_parts once).2
  apply readCommand_of_outcome hread
  apply places_found
  rw [← inOrder]
  exact List.filter_sublist.subset

theorem separated_perm
    (once : (before ++ behind).Perm (generalValues line ++ ownValues line.command)) :
    (before ++ (behind ++ placedValues line.command)).Perm (allValues line) := by
  have hall := once.append_right (placedValues line.command)
  rwa [List.append_assoc, List.append_assoc] at hall

theorem readCommand_separated
    (once : (before ++ behind).Perm (generalValues line ++ ownValues line.command)) :
    readCommand (commandName line.command)
      (behind.map spelled ++ utf8 "--" :: (placedValues line.command).map spelled) =
        outcome (behind ++ placedValues line.command) := by
  have all := separated_perm once
  have options : ∀ given ∈ behind,
      Admitted (commandLevel (commandName line.command)).options given := by
    intro given h
    exact admitted_options line given (once.subset (List.mem_append_right before h))
  have named : ∀ given ∈ behind, given.1.named = true := fun given h => (options given h).named
  have readable : ∀ given ∈ behind ++ placedValues line.command, Readable given := by
    intro given h
    exact readable_allValues (all.subset (List.mem_append_right before h))
  have hread := levelOutcome_separated (legible_commandLevel (commandName_mem line.command))
    (fits_of_options options) named (fits_placedValues line.command) readable (distinct_parts all).2
  apply readCommand_of_outcome hread
  exact places_found (List.subset_append_right _ _)

/-- However a command line is written, it is read back, unless a path is empty. -/
theorem parse_of_writes (h : Writes line args) :
    parse args = if PathsGiven line then .ok line else .error .invalidValue := by
  cases h with
  | mixed before behind once general inOrder plain =>
    exact parse_of_values general once (readCommand_mixed once inOrder plain)
  | separated before behind once general =>
    exact parse_of_values general (separated_perm once) (readCommand_separated once)

end Written

def scatteredLookup : CommandLine where
  command := .lookup (utf8 "build") "a=b" (some "json")
  config := some (utf8 "-c=1")
  verbose := true
  logLevel := some "--off"
  logFormat := none
  logOutput := none
  logFile := none

def scatteredArguments : List Bytes :=
  ["--log-level=--off", "lookup", "--verbose", "build", "--config=-c=1", "a=b",
    "--format=json"].map utf8

def hyphenatedLookup : CommandLine :=
  { scatteredLookup with command := .lookup (utf8 "-d") "--verbose" none }

def hyphenatedArguments : List Bytes :=
  ["--config=-c=1", "lookup", "--log-level=--off", "--verbose", "--", "-d", "--verbose"].map utf8

/-- Options stand on both sides of the command, and its arguments between them or behind all. -/
theorem scattered_lookups_read :
    (Writes scatteredLookup scatteredArguments ∧ parse scatteredArguments = .ok scatteredLookup) ∧
      Writes hyphenatedLookup hyphenatedArguments ∧
        parse hyphenatedArguments = .ok hyphenatedLookup := by
  have scattered : Writes scatteredLookup scatteredArguments :=
    .mixed [(option "log-level" .text, utf8 "--off")]
      [(option "verbose" .flag, []), (positional "path" .path, utf8 "build"),
        (option "config" .path, utf8 "-c=1"), (positional "entry" .text, utf8 "a=b"),
        (option "format" .text, utf8 "json")]
      (by decide) (by decide) (by decide) (by decide)
  have hyphenated : Writes hyphenatedLookup hyphenatedArguments :=
    .separated [(option "config" .path, utf8 "-c=1")]
      [(option "log-level" .text, utf8 "--off"), (option "verbose" .flag, [])]
      (by decide) (by decide)
  exact ⟨⟨scattered, parse_of_writes scattered⟩, hyphenated, parse_of_writes hyphenated⟩

/-- A directory whose path is empty is written like any other, but not read back. -/
theorem empty_directories_not_read :
    ¬∀ (line : CommandLine) (args : List Bytes),
      (∀ given ∈ generalValues line, given.1.content ≠ .flag → given.2 ≠ []) →
      Writes line args → parse args = .ok line := by
  intro h
  have written : Writes ⟨.hash [], none, false, none, none, none, none⟩ [utf8 "hash", []] :=
    .mixed [] [(positional "path" .path, [])] (by decide) (by decide) (by decide) (by decide)
  have refused : parse [utf8 "hash", []] = .error .invalidValue := rfl
  have read := h _ _ (by decide) written
  rw [refused] at read
  cases read

end HashedTree.WrittenCommandLines
