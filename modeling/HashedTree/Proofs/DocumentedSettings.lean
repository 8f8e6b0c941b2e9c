import HashedTree.Proofs.LaidTables
import HashedTree.Proofs.Outcomes
import HashedTree.Proofs.SettingKeys

/-! # Tables that hold documented settings only

Such tables stay documented where one is laid over another, and they decode: each setting gets the
value that stands at its place, or else its default.
-/
namespace HashedTree
open ByteBlocks SettingTree LaidTables

/-- What a tree means as a value of a kind. -/
def SettingKind.value? : SettingKind → SettingTree → Option SettingValue
  | .text, .text _ word => some (.text word)
  | .path, .text _ word => some (.path (Utf8Text.utf8 word))
  | .truth, .boolean _ value => some (.truth value)
  | _, _ => none

/-- The value of a setting; only that of a module may be missing. -/
def Settings.value? (s : Settings) : SettingKey → Option SettingValue
  | .logLevel => some (.text s.logging.level)
  | .logFormat => some (.text s.logging.format)
  | .logOutput => some (.text s.logging.output)
  | .logFile => some (.path s.logging.file)
  | .logColor => some (.truth s.logging.color)
  | .logModule name => (NamedTable.find? name s.logging.modules).map .text
  | .outputFormat => some (.text s.output.format)
  | .outputPretty => some (.truth s.output.pretty)

namespace DocumentedSettings

/-- A tree as it may stand at the end of a way: the value of a setting, or a table of settings whose
names have no capital letters. -/
inductive Documented : List String → SettingTree → Prop
  | setting (key : SettingKey) {tree : SettingTree} (typed : (key.kind.value? tree).isSome) :
      Documented key.way tree
  | table {way : List String} (listed : way ∈ SettingKey.sections) (origin : Option String)
      {members : List (String × SettingTree)}
      (lower : ∀ member ∈ members, LetterCase.lowercase member.1 = member.1)
      (inside : ∀ member ∈ members, Documented (way ++ [member.1]) member.2) :
      Documented way (.table origin members)

variable {way rest : List String} {key : SettingKey} {name : String}
  {tree target value : SettingTree} {members : List (String × SettingTree)}

theorem isTable_of_typed {kind : SettingKind} (typed : (kind.value? tree).isSome) :
    isTable tree = false := by
  cases tree with
  | table origin members => cases kind <;> exact absurd typed Bool.false_ne_true
  | null | boolean | integer | real | text | array => rfl

theorem Documented.typed (h : Documented key.way tree) : (key.kind.value? tree).isSome := by
  generalize same : key.way = way at h
  cases h with
  | setting other typed => exact SettingKey.way_injective same ▸ typed
  | table listed => exact absurd (same ▸ listed) key.way_not_section

theorem Documented.inside (h : Documented way tree) (listed : way ∈ SettingKey.sections) :
    isTable tree = true ∧ ∀ member ∈ tree.members,
      LetterCase.lowercase member.1 = member.1 ∧ Documented (way ++ [member.1]) member.2 := by
  cases h with
  | setting key => exact absurd listed key.way_not_section
  | table listed origin lower inside =>
    exact ⟨rfl, fun member h => ⟨lower member h, inside member h⟩⟩

theorem Documented.listed (h : Documented way tree) (table : isTable tree = true) :
    way ∈ SettingKey.sections := by
  cases h with
  | setting key typed => cases (isTable_of_typed typed).symm.trans table
  | table listed => exact listed

theorem Documented.leads : ∀ {rest way : List String} {tree : SettingTree},
    Documented way tree → key.way = way ++ rest → Leads rest tree
  | [], _, _, h, ahead => by
    rw [List.append_nil] at ahead
    exact isTable_of_typed (ahead ▸ h).typed
  | _ :: rest, _, _, h, ahead => by
    obtain ⟨table, inside⟩ := h.inside (SettingKey.listed_of_way ahead)
    refine ⟨table, fun member mem => ⟨(inside member mem).1, ?_⟩⟩
    rintro rfl
    exact (inside member mem).2.leads (ahead.trans (List.append_cons _ _ _))

/-- What is stated at the place of a setting has its kind. -/
theorem Documented.stated : ∀ {rest way : List String} {tree : SettingTree},
    Documented way tree → key.way = way ++ rest → stated? rest tree = some value →
    (key.kind.value? value).isSome
  | [], _, _, h, ahead, found => by
    rw [List.append_nil] at ahead
    cases found
    exact (ahead ▸ h).typed
  | name :: rest, _, _, h, ahead, found => by
    obtain ⟨-, inside⟩ := h.inside (SettingKey.listed_of_way ahead)
    obtain ⟨member, mem, here⟩ := List.exists_of_findSome?_eq_some found
    obtain ⟨rfl, below⟩ := Option.ite_none_right_eq_some.1 here
    exact (inside member (List.mem_reverse.1 mem)).2.stated
      (ahead.trans (List.append_cons _ _ _)) below

/-! ### Laid over one another -/

theorem Documented.member (h : Documented way tree) (listed : way ∈ SettingKey.sections)
    (found : tree.member? name = some value) : Documented (way ++ [name]) value :=
  ((h.inside listed).2 _ (NamedTable.mem_of_find? found)).2

theorem Documented.withMember (h : Documented way target) (listed : way ∈ SettingKey.sections)
    (lower : LetterCase.lowercase name = name) (inner : Documented (way ++ [name]) value) :
    Documented way (target.withMember name value) := by
  obtain ⟨table, inside⟩ := h.inside listed
  obtain ⟨origin, members, rfl⟩ := exists_of_isTable table
  have each : ∀ member ∈ NamedTable.put name value members,
      LetterCase.lowercase member.1 = member.1 ∧ Documented (way ++ [member.1]) member.2 := by
    intro member mem
    obtain rfl | mem := NamedTable.mem_put mem
    · exact ⟨lower, inner⟩
    · exact inside member mem
  exact .table listed origin (fun member mem => (each member mem).1)
    fun member mem => (each member mem).2

mutual
theorem Documented.lay : ∀ (tree target : SettingTree) {way : List String} {name : String},
    Documented way target → way ∈ SettingKey.sections → LetterCase.lowercase name = name →
    Documented (way ++ [name]) tree → Documented way (lay target name tree)
  | .table origin members, target, way, name, h, listed, lower, laid => by
    -- only a section can stand where a documented table is laid
    have inner : Documented (way ++ [name]) ((target.member? name).getD empty) := by
      cases found : target.member? name with
      | none => exact .table (laid.listed rfl) none (List.forall_mem_nil _) (List.forall_mem_nil _)
      | some inner => exact h.member listed found
    rw [lay_table origin lower]
    exact h.withMember listed lower (Documented.layMembers members _ inner (laid.listed rfl)
      (laid.inside (laid.listed rfl)).2)
  | .null o, target, way, name, h, listed, lower, laid
  | .boolean o _, target, way, name, h, listed, lower, laid
  | .integer o _, target, way, name, h, listed, lower, laid
  | .real o _, target, way, name, h, listed, lower, laid
  | .text o _, target, way, name, h, listed, lower, laid
  | .array o _, target, way, name, h, listed, lower, laid => by
    rw [lay_of_not_table rfl lower]
    exact h.withMember listed lower laid

theorem Documented.layMembers : ∀ (members : List (String × SettingTree)) (target : SettingTree)
    {way : List String}, Documented way target → way ∈ SettingKey.sections →
    (∀ member ∈ members, LetterCase.lowercase member.1 = member.1 ∧
      Documented (way ++ [member.1]) member.2) →
    Documented way (layMembers target members)
  | [], target, way, h, _, _ => h
  | (name, value) :: members, target, way, h, listed, laid => by
    obtain ⟨⟨lower, here⟩, later⟩ := List.forall_mem_cons.1 laid
    exact Documented.layMembers members _ (Documented.lay value target h listed lower here)
      listed later
end

/-! ### Decoded -/

/-- The value that a tree holds for a setting. -/
def valueAt (rest : List String) (key : SettingKey) (tree : SettingTree) : Option SettingValue :=
  (at? rest tree).bind key.kind.value?

/-- A decoder takes each value of a kind for what it means. -/
def Decodes {α : Type} (kind : SettingKind) (wrap : α → SettingValue)
    (decode : SettingTree → Except DecodingFault α) : Prop :=
  ∀ {tree : SettingTree} {value : SettingValue}, kind.value? tree = some value →
    ∃ x, decode tree = .ok x ∧ wrap x = value

theorem textOf_decodes : Decodes .text .text SettingDecoding.textOf := by
  rintro (_ | _ | _ | _ | _ | _ | _) value ⟨⟩
  exact ⟨_, rfl, rfl⟩

theorem pathOf_decodes : Decodes .path .path SettingDecoding.pathOf := by
  rintro (_ | _ | _ | _ | _ | _ | _) value ⟨⟩
  exact ⟨_, rfl, rfl⟩

theorem truthOf_decodes : Decodes .truth .truth SettingDecoding.truthOf := by
  rintro (_ | _ | _ | _ | _ | _ | _) value ⟨⟩
  exact ⟨_, rfl, rfl⟩

theorem field_table (position : Nat) (name : String) {α : Type} (fallback : α)
    (decode : SettingTree → Except DecodingFault α) (table : isTable tree = true) :
    SettingDecoding.field tree position name fallback decode =
      match tree.member? name with
      | some value => (decode value).mapError (·.inside (.name name))
      | none => .ok fallback := by
  obtain ⟨origin, members, rfl⟩ := exists_of_isTable table
  rfl

/-- A field has the value that stands at its place, or else its default. -/
theorem field_documented {α : Type} {wrap : α → SettingValue}
    {decode : SettingTree → Except DecodingFault α} (key : SettingKey)
    (decodes : Decodes key.kind wrap decode) (h : Documented way tree)
    (last : key.way = way ++ [name]) (position : Nat) (fallback : α) :
    ∃ x, SettingDecoding.field tree position name fallback decode = .ok x ∧
      some (wrap x) = (valueAt [name] key tree).or (some (wrap fallback)) := by
  have listed := SettingKey.listed_of_way last
  rw [field_table position name fallback decode (h.inside listed).1]
  cases found : tree.member? name with
  | none => exact ⟨fallback, rfl, by simp [valueAt, at?, found]⟩
  | some value =>
    obtain ⟨meaning, typed⟩ := Option.isSome_iff_exists.1 (last ▸ h.member listed found).typed
    obtain ⟨x, decoded, rfl⟩ := decodes typed
    exact ⟨x, by simp [decoded], by simp [valueAt, at?, found, typed]⟩

theorem tableOf_documented (origin : Option String)
    (typed : ∀ member ∈ members, (SettingKind.text.value? member.2).isSome) :
    ∃ texts, SettingDecoding.tableOf (.table origin members) = .ok texts ∧ ∀ name,
      (NamedTable.find? name texts).map .text =
        (NamedTable.find? name members).bind SettingKind.text.value? := by
  induction members with
  | nil => exact ⟨[], rfl, fun name => rfl⟩
  | cons member members ih =>
    obtain ⟨here, later⟩ := List.forall_mem_cons.1 typed
    obtain ⟨texts, decoded, values⟩ := ih later
    obtain ⟨meaning, typed⟩ := Option.isSome_iff_exists.1 here
    obtain ⟨text, first, rfl⟩ := textOf_decodes typed
    refine ⟨(member.1, text) :: texts, ?_, fun name => ?_⟩
    · simp only [SettingDecoding.tableOf, List.mapM_cons] at decoded ⊢
      rw [first, decoded]
      rfl
    · simp only [NamedTable.find?]
      split
      · exact typed.symm
      · exact values name

/-- The modules: texts under names of any number. -/
theorem modules_documented (h : Documented ["logging"] tree) :
    ∃ modules, SettingDecoding.field tree 5 "modules" [] SettingDecoding.tableOf = .ok modules ∧
      ∀ name, (NamedTable.find? name modules).map .text =
        valueAt ["modules", name] (.logModule name) tree := by
  have listed : ["logging"] ∈ SettingKey.sections := by decide
  rw [field_table 5 "modules" [] _ (h.inside listed).1]
  cases found : tree.member? "modules" with
  | none => exact ⟨[], rfl, fun name => by simp [valueAt, at?, found, NamedTable.find?]⟩
  | some inner =>
    have listed : ["logging", "modules"] ∈ SettingKey.sections := by decide
    obtain ⟨table, inside⟩ := (h.member (by decide) found).inside listed
    obtain ⟨origin, members, rfl⟩ := exists_of_isTable table
    have typed : ∀ member ∈ members, (SettingKind.text.value? member.2).isSome :=
      fun member mem =>
        have place : Documented (SettingKey.logModule member.1).way member.2 :=
          (inside member mem).2
        place.typed
    obtain ⟨texts, decoded, values⟩ := tableOf_documented origin typed
    refine ⟨texts, congrArg (Except.mapError _) decoded, fun name => ?_⟩
    simp only [values, valueAt, at?, found, Option.bind_some, Option.bind_assoc]
    rfl

theorem checkSection_table (expected : String) (table : isTable tree = true) :
    SettingDecoding.checkSection expected tree = .ok () := by
  obtain ⟨origin, members, rfl⟩ := exists_of_isTable table
  rfl

theorem loggingOf_documented (file : Bytes) (h : Documented ["logging"] tree) :
    ∃ logging, SettingDecoding.loggingOf file tree = .ok logging ∧
      ∀ (key : SettingKey) (rest : List String), key.way = "logging" :: rest →
        (Settings.mk logging .default).value? key =
          (valueAt rest key tree).or ((Settings.default file).value? key) := by
  obtain ⟨level, hlevel, vlevel⟩ := field_documented .logLevel textOf_decodes h rfl 0
    (LoggingSettings.default file).level
  obtain ⟨format, hformat, vformat⟩ := field_documented .logFormat textOf_decodes h rfl 1
    (LoggingSettings.default file).format
  obtain ⟨out, hout, vout⟩ := field_documented .logOutput textOf_decodes h rfl 2
    (LoggingSettings.default file).output
  obtain ⟨path, hpath, vpath⟩ := field_documented .logFile pathOf_decodes h rfl 3
    (LoggingSettings.default file).file
  obtain ⟨color, hcolor, vcolor⟩ := field_documented .logColor truthOf_decodes h rfl 4
    (LoggingSettings.default file).color
  obtain ⟨modules, hmodules, vmodules⟩ := modules_documented h
  refine ⟨⟨level, format, out, path, color, modules⟩, ?_, fun key rest ahead => ?_⟩
  · have isSection := checkSection_table "struct LoggingConfig" (h.inside (by decide)).1
    simp only [SettingDecoding.loggingOf, isSection, hlevel, hformat, hout, hpath, hcolor,
      show (LoggingSettings.default file).modules = [] from rfl, hmodules]
    rfl
  · cases key with
    | logModule name =>
      cases ahead
      exact (vmodules name).trans Option.or_none.symm
    | logLevel => cases ahead; exact vlevel
    | logFormat => cases ahead; exact vformat
    | logOutput => cases ahead; exact vout
    | logFile => cases ahead; exact vpath
    | logColor => cases ahead; exact vcolor
    | outputFormat | outputPretty => simp [SettingKey.way] at ahead

theorem outputOf_documented (file : Bytes) (h : Documented ["output"] tree) :
    ∃ output, SettingDecoding.outputOf tree = .ok output ∧
      ∀ (key : SettingKey) (rest : List String), key.way = "output" :: rest →
        (Settings.mk (.default file) output).value? key =
          (valueAt rest key tree).or ((Settings.default file).value? key) := by
  obtain ⟨format, hformat, vformat⟩ := field_documented .outputFormat textOf_decodes h rfl 0
    OutputSettings.default.format
  obtain ⟨pretty, hpretty, vpretty⟩ := field_documented .outputPretty truthOf_decodes h rfl 1
    OutputSettings.default.pretty
  refine ⟨⟨format, pretty⟩, ?_, fun key rest ahead => ?_⟩
  · have isSection := checkSection_table "struct OutputConfig" (h.inside (by decide)).1
    simp only [SettingDecoding.outputOf, isSection, hformat, hpretty]
    rfl
  · cases key with
    | outputFormat => cases ahead; exact vformat
    | outputPretty => cases ahead; exact vpretty
    | logLevel | logFormat | logOutput | logFile | logColor | logModule =>
      simp [SettingKey.way] at ahead

/-- A section that is missing has the defaults of its settings. -/
theorem section_documented {α : Type} {decode : SettingTree → Except DecodingFault α}
    (shown : α → SettingKey → Option SettingValue) (fallback : α)
    (decodes : ∀ {inner : SettingTree}, Documented [name] inner → ∃ x, decode inner = .ok x ∧
      ∀ (key : SettingKey) (rest : List String), key.way = name :: rest →
        shown x key = (valueAt rest key inner).or (shown fallback key))
    (h : Documented [] tree) (position : Nat) :
    ∃ x, SettingDecoding.field tree position name fallback decode = .ok x ∧
      ∀ (key : SettingKey) (rest : List String), key.way = name :: rest →
        shown x key = (valueAt key.way key tree).or (shown fallback key) := by
  have listed : [] ∈ SettingKey.sections := List.mem_cons_self
  rw [field_table position name fallback decode (h.inside listed).1]
  cases found : tree.member? name with
  | none => exact ⟨fallback, rfl, fun key rest ahead => by simp [ahead, valueAt, at?, found]⟩
  | some inner =>
    obtain ⟨x, decoded, values⟩ := decodes (h.member listed found)
    refine ⟨x, by simp [decoded], fun key rest ahead => ?_⟩
    rw [values key rest ahead, ahead]
    simp [valueAt, at?, found]

/-- A documented tree decodes, and each setting is what stands at its place, or else its default. -/
theorem settingsOf_documented (file : Bytes) (h : Documented [] tree) :
    ∃ settings, SettingDecoding.settingsOf file tree = .ok settings ∧ ∀ key : SettingKey,
      settings.value? key = (valueAt key.way key tree).or ((Settings.default file).value? key) := by
  obtain ⟨logging, hlogging, vlogging⟩ := section_documented
    (fun logging => (Settings.mk logging .default).value?) (.default file)
    (loggingOf_documented file) h 0
  obtain ⟨output, houtput, voutput⟩ := section_documented
    (fun output => (Settings.mk (.default file) output).value?) .default
    (outputOf_documented file) h 1
  refine ⟨⟨logging, output⟩, ?_, fun key => ?_⟩
  · simp only [SettingDecoding.settingsOf, hlogging, houtput]
    rfl
  · have logged := vlogging key
    have printed := voutput key
    cases key with
    | logLevel | logFormat | logOutput | logFile | logColor | logModule => exact logged _ rfl
    | outputFormat | outputPretty => exact printed _ rfl

end DocumentedSettings
end HashedTree
