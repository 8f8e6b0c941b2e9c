import HashedTree.ConfigurationSettings
import HashedTree.NodeDocument
import HashedTree.NodeLookup
import HashedTree.TreeBuilding
import HashedTree.TreeDrawing

/-! # The three commands: print a tree, its digest, or one of its entries

Every command builds the tree first. A format asked for on the command line stands before the
configured one, and a wrong one is found only after the tree is built.
-/
namespace HashedTree
open ByteBlocks

inductive TreeCommand where
  | build (path : Bytes) (format : Option String) (pretty : Bool)
  | hash (path : Bytes)
  | lookup (path : Bytes) (entry : String) (format : Option String)
  deriving DecidableEq

/-- What the program notes: the build of a root, and what happens around it. -/
inductive ProgramEvent where
  | starting
  | duringBuild (root : Bytes) (event : BuildEvent)
  | computedHash (hash : Digest)
  | succeeded
  | failed (error : CommandError)

/-- What was noted by a command, and what it prints. -/
structure Performance where
  events : List ProgramEvent
  result : Except CommandError String

namespace TreeCommand

inductive PrintFormat where
  | text
  | json
  deriving DecidableEq, Repr

def printFormat (settings : OutputSettings) (requested : Option String) :
    Except CommandError PrintFormat :=
  let format := requested.getD settings.format
  if format = "text" then .ok .text
  else if format = "json" then .ok .json
  else .error (.configuration (SettingFault.outputFormat format).text)

def layout (pretty : Bool) : Json.Layout := if pretty then .indented else .compact

def path : TreeCommand → Bytes
  | .build path _ _ | .hash path | .lookup path _ _ => path

def output (settings : OutputSettings) (tree : Node) : TreeCommand → Except CommandError String
  | .build _ format pretty =>
    (printFormat settings format).map fun
      | .json => NodeDocument.text (layout (pretty || settings.pretty)) tree
      | .text => TreeDrawing.drawing tree
  | .hash _ => .ok tree.hash.toHex
  | .lookup _ entry format =>
    match tree.locate entry with
    | none => .error (.entryNotFound entry)
    | some node =>
      (printFormat settings format).map fun
        | .json => NodeDocument.text (layout settings.pretty) node
        | .text => TreeDrawing.nodeLine node

def afterBuild (tree : Node) : TreeCommand → List ProgramEvent
  | .hash _ => [.computedHash tree.hash]
  | .build .. | .lookup .. => []

/-- Performs a command while files grow with what is noted. -/
def performAmid (growth : Growth) (fs : FileSystem) (settings : OutputSettings)
    (command : TreeCommand) : Performance :=
  let walk := TreeBuilding.buildAmid .none growth fs .chunked command.path
  let events := walk.events.map (.duringBuild command.path)
  match walk.result with
  | .error e => ⟨events, .error (.build e)⟩
  | .ok tree => ⟨events ++ command.afterBuild tree, command.output settings tree⟩

def execute (fs : FileSystem) (settings : OutputSettings) (command : TreeCommand) :
    Except CommandError String :=
  (command.performAmid .none fs settings).result

end TreeCommand
end HashedTree
