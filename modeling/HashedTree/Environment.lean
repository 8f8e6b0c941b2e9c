import HashedTree.NamedTable
import HashedTree.PathText
import HashedTree.Utf8Text

/-! # Environment variables, and the directories of a user that they name -/
namespace HashedTree
open ByteBlocks

abbrev Environment := List (String × String)

namespace Environment

def get? (name : String) (environment : Environment) : Option String :=
  NamedTable.find? name environment

/-- The home directory: the one that a variable names, or else the one on record for the account. -/
def home (account : Option Bytes) (environment : Environment) : Option Bytes :=
  match environment.get? "HOME" with
  | some directory => if directory = "" then account else some (Utf8Text.utf8 directory)
  | none => account

/-- The directory that a variable names by an absolute path, or else one below the home directory.
Without a home directory there is neither. -/
def directoryFrom (account : Option Bytes) (environment : Environment) (variableName : String)
    (belowHome : String) : Option Bytes :=
  (environment.home account).map fun home =>
    let named := Utf8Text.utf8 ((environment.get? variableName).getD "")
    if PathText.isAbsolute named then named else PathText.join home (Utf8Text.utf8 belowHome)

def programName : String := "dirtree"

private def below (directory : Bytes) (names : List String) : Bytes :=
  names.foldl (fun path name => PathText.join path (Utf8Text.utf8 name)) directory

def globalFile (account : Option Bytes) (environment : Environment) : Option Bytes :=
  (environment.directoryFrom account "XDG_CONFIG_HOME" ".config").map
    (below · [programName, "config.toml"])

def logFileName : String := "dirtree.log"

/-- The log file where none is set. Without a home directory it is in the working directory. -/
def defaultLogFile (account : Option Bytes) (environment : Environment) : Bytes :=
  ((environment.directoryFrom account "XDG_DATA_HOME" ".local/share").map
    (below · [programName, logFileName])).getD (Utf8Text.utf8 logFileName)

end Environment
end HashedTree
