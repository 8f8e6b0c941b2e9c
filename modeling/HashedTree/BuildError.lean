import HashedTree.QuotedText
import HashedTree.SystemError

/-! # The errors of a build and of a command, with their texts

Every error of a build names the path at which it arose.
-/
namespace HashedTree
open ByteBlocks QuotedText

/-- Why no tree could be built. -/
inductive BuildError where
  | stat (path : Bytes) (cause : SystemError)
  | notADirectory (path : Bytes)
  | readDirectory (path : Bytes) (cause : SystemError)
  | readLink (path : Bytes) (cause : SystemError)
  | unsupportedKind (path : Bytes)
  | contentHash (path : Bytes) (cause : SystemError)
  | invalidName (path : Bytes)
  deriving DecidableEq

namespace BuildError

def path : BuildError → Bytes
  | .stat path _ | .notADirectory path | .readDirectory path _ | .readLink path _
  | .unsupportedKind path | .contentHash path _ | .invalidName path => path

def cause? : BuildError → Option SystemError
  | .stat _ cause | .readDirectory _ cause | .readLink _ cause | .contentHash _ cause => some cause
  | .notADirectory _ | .unsupportedKind _ | .invalidName _ => none

def text : BuildError → String
  | .stat path cause => "Failed to stat file " ++ quotedPath path ++ ": " ++ cause.text
  | .notADirectory path =>
    "File tree building is only supported for directory: " ++ quotedPath path
  | .readDirectory path cause => "Failed to read directory " ++ quotedPath path ++ ": " ++ cause.text
  | .readLink path cause => "Invalid symbolic link " ++ quotedPath path ++ ": " ++ cause.text
  | .unsupportedKind path => "Unsupported file type: " ++ quotedPath path
  | .contentHash path cause =>
    "Failed to calculate content hash for " ++ quotedPath path ++ ": " ++ cause.text
  | .invalidName path => "Name is not valid UTF-8: " ++ quotedPath path

end BuildError

/-- Why a command failed. -/
inductive CommandError where
  | configuration (detail : String)
  | serialization (detail : String)
  | build (error : BuildError)
  | entryNotFound (entry : String)
  deriving DecidableEq

namespace CommandError

def text : CommandError → String
  | .configuration detail => "Configuration error: " ++ detail
  | .serialization detail => "Serialization error: " ++ detail
  | .build error => "Tree error: " ++ error.text
  | .entryNotFound entry => "Entry not found in tree: " ++ entry

/-- The line that a command prints; an error of a build stands there without its class. -/
def report : CommandError → String
  | .build error => "error: " ++ error.text
  | other => "error: " ++ other.text

end CommandError
end HashedTree
