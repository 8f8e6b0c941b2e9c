import HashedTree.Utf8Text

/-! # The settings of the program, their defaults and their validity -/
namespace HashedTree
open ByteBlocks

/-- What is logged, in which form and where to. -/
structure LoggingSettings where
  level : String
  format : String
  output : String
  file : Bytes
  color : Bool
  modules : List (String × String)
  deriving DecidableEq

/-- How trees are printed. -/
structure OutputSettings where
  format : String
  pretty : Bool
  deriving DecidableEq

structure Settings where
  logging : LoggingSettings
  output : OutputSettings
  deriving DecidableEq

/-- The settings where nothing is configured. The log file depends on the environment. -/
def LoggingSettings.default (file : Bytes) : LoggingSettings :=
  ⟨"info", "text", "stderr", file, true, []⟩

def OutputSettings.default : OutputSettings := ⟨"text", false⟩

def Settings.default (file : Bytes) : Settings := ⟨.default file, .default⟩

/-- A setting that holds none of its possible values. -/
inductive SettingFault where
  | logLevel (value : String)
  | logFormat (value : String)
  | logOutput (value : String)
  | outputFormat (value : String)
  deriving DecidableEq, Repr

def SettingFault.text : SettingFault → String
  | .logLevel value => "Invalid log level: " ++ value
  | .logFormat value => "Invalid log format: " ++ value ++ " (must be 'json' or 'text')"
  | .logOutput value =>
    "Invalid log output: " ++ value ++ " (must be 'stdout', 'stderr' or 'file')"
  | .outputFormat value => "Invalid output format: " ++ value ++ " (must be 'text' or 'json')"

def logLevels : List String := ["trace", "debug", "info", "warn", "error", "off"]

def logFormats : List String := ["json", "text"]

def logOutputs : List String := ["stdout", "stderr", "file"]

def outputFormats : List String := ["text", "json"]

def LoggingSettings.fault? (s : LoggingSettings) : Option SettingFault :=
  if s.level ∉ logLevels then some (.logLevel s.level)
  else if s.format ∉ logFormats then some (.logFormat s.format)
  else if s.output ∉ logOutputs then some (.logOutput s.output)
  else none

def OutputSettings.fault? (s : OutputSettings) : Option SettingFault :=
  if s.format ∉ outputFormats then some (.outputFormat s.format) else none

/-- The faulty settings, at most one of each section, with the section's name in front. -/
def Settings.complaints (s : Settings) : List String :=
  (s.logging.fault?.map fun f => "logging: " ++ f.text).toList ++
    (s.output.fault?.map fun f => "output: " ++ f.text).toList

end HashedTree
