import HashedTree.ConfigurationFiles
import HashedTree.Environment

/-! # Settings from their layers: defaults, a file, and the environment

A later layer overrides an earlier one. The file is one that is asked for, or else the user's global
file if there is one.
-/
namespace HashedTree.ConfigurationLayers
open ByteBlocks

def defaults : List (String × SettingTree) :=
  [("logging.level", .text none "info"), ("logging.format", .text none "text"),
    ("logging.output", .text none "stderr"), ("output.format", .text none "text"),
    ("output.pretty", .boolean none false)]

/-! ### The layer of the environment -/

def variablePrefix : List Char := "dirtree__".toList

private def afterPrefix : List Char → List Char → Option (List Char)
  | [], text => some text
  | _ :: _, [] => none
  | c :: cs, d :: ds => if c = d then afterPrefix cs ds else none

def dotted : List Char → List Char
  | '_' :: '_' :: rest => '.' :: dotted rest
  | c :: rest => c :: dotted rest
  | [] => []

def keyOf? (name : String) : Option String :=
  (afterPrefix variablePrefix (LetterCase.lowercase name).toList).map fun rest =>
    String.ofList (dotted rest)

private theorem afterPrefix_eq_some {start text rest : List Char} :
    afterPrefix start text = some rest ↔ text = start ++ rest := by
  induction start generalizing text with
  | nil => simp [afterPrefix]
  | cons c start ih =>
    cases text with
    | nil => simp [afterPrefix]
    | cons d text =>
      by_cases h : c = d
      · simp [afterPrefix, h, ih]
      · simp [afterPrefix, h, Ne.symm h]

theorem keyOf?_eq_some {name key : String} :
    keyOf? name = some key ↔ ∃ rest, (LetterCase.lowercase name).toList = variablePrefix ++ rest ∧
      String.ofList (dotted rest) = key := by
  simp [keyOf?, afterPrefix_eq_some]

def environmentName : String := "the environment"

/-- The value of a variable: a truth value, a number, or else a text. -/
def valueOf (text : String) : SettingTree :=
  let origin := some environmentName
  let word := LetterCase.lowercase text
  if word = "true" then .boolean origin true
  else if word = "false" then .boolean origin false
  else
    match DecimalReading.word? text.toList with
    | some n => .integer origin n
    | none =>
      match DecimalReading.float? text.toList with
      | some x => .real origin x
      | none => .text origin text

def environmentLayer (environment : Environment) : List (String × SettingTree) :=
  environment.filterMap fun (name, text) => (keyOf? name).map (·, valueOf text)

/-! ### Loading -/

def settingsOf (platform : Platform) (environment : Environment)
    (file : List (String × SettingTree)) : Except ConfigurationFault Settings :=
  let tree := ((SettingTree.empty.layLayer defaults).layLayer file).layLayer
    (environmentLayer environment)
  let decoded := SettingDecoding.settingsOf (environment.defaultLogFile platform.accountHome) tree
  (decoded.mapError .undecodable).bind fun settings =>
    if settings.complaints.isEmpty then .ok settings else .error (.invalid settings.complaints)

def loadFrom (platform : Platform) (fs : FileSystem) (environment : Environment) (path : Bytes) :
    Except ConfigurationFault Settings :=
  (ConfigurationFiles.layer platform fs path).bind (settingsOf platform environment)

/-- The layer of the user's global file, which is empty if there is none. -/
def globalLayer (platform : Platform) (fs : FileSystem) (environment : Environment) :
    Except ConfigurationFault (List (String × SettingTree)) :=
  match environment.globalFile platform.accountHome with
  | none => .ok []
  | some path =>
    if ConfigurationFiles.leadsSomewhere fs path then
      ConfigurationFiles.optionalLayer platform fs path
    else .ok []

section GlobalLayer
variable {platform : Platform} {fs : FileSystem} {environment : Environment}

theorem globalLayer_of_absent
    (absent : ∀ path ∈ environment.globalFile platform.accountHome,
      ConfigurationFiles.leadsSomewhere fs path = false) :
    globalLayer platform fs environment = .ok [] := by
  rw [globalLayer]
  cases found : environment.globalFile platform.accountHome with
  | none => rfl
  | some path => simp [absent path found]

theorem globalLayer_of_present {path : Bytes}
    (found : environment.globalFile platform.accountHome = some path)
    (present : ConfigurationFiles.leadsSomewhere fs path = true) :
    globalLayer platform fs environment = ConfigurationFiles.optionalLayer platform fs path := by
  rw [globalLayer, found]
  exact if_pos present

end GlobalLayer

def load (platform : Platform) (fs : FileSystem) (environment : Environment) :
    Except ConfigurationFault Settings :=
  (globalLayer platform fs environment).bind (settingsOf platform environment)

end HashedTree.ConfigurationLayers
