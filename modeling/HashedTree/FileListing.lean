import HashedTree.FileSystemChanges
import HashedTree.Utf8Text

/-! # Listings of files

Each line of a listing has the kind of a file, its path and the target of a link, separated by tabs:
`d` is a directory, `f` a regular file, `l` a symbolic link, and everything else is special.
-/
namespace HashedTree
open ByteBlocks

inductive ListedKind where
  | directory
  | file
  | link (target : String)
  | special
  deriving DecidableEq, Repr

/-- A line of a listing. -/
structure ListedFile where
  path : String
  kind : ListedKind
  deriving DecidableEq, Repr

namespace FileListing

def ofLine? (line : String) : Option ListedFile :=
  match line.toList.splitOn '\t' with
  | kind :: path :: rest =>
    let target := String.ofList ((rest.intersperse ['\t']).flatten)
    let kind : ListedKind :=
      if kind = ['d'] then .directory
      else if kind = ['f'] then .file
      else if kind = ['l'] then .link target
      else .special
    some ⟨String.ofList path, kind⟩
  | _ => none

def ofText (text : String) : List ListedFile :=
  (text.toList.splitOn '\n').filterMap fun line => ofLine? (String.ofList line)

/-- The node of a listed file. The content of a regular file is given if it can be read. -/
def nodeOf (file : ListedFile) (content : Option Bytes) : Inode :=
  match file.kind with
  | .directory => .directory FileSystem.directoryMode []
  | .file =>
    match content with
    | some bytes => .file FileSystem.fileMode bytes
    | none => .file 0 []
  | .link target => .symlink (Utf8Text.utf8 target)
  | .special => .special FileSystem.fileMode

/-- Puts a node at a path where nothing is, and makes the directories on the way to it. -/
def place (fs : FileSystem) (path : Bytes) (node : Inode) : FileSystem :=
  let fs := match FileSystem.directoryOf? path with
    | some directory => (fs.makeDirectories directory).files
    | none => fs
  (fs.create path node).toOption.getD fs

def fileSystem (workingDirectory : Bytes) (files : List (ListedFile × Option Bytes)) : FileSystem :=
  let bare : FileSystem := ⟨.directory FileSystem.directoryMode [], [], true⟩
  let start := (bare.makeDirectories workingDirectory).files
  let there := { start with workingDirectory := PathText.components workingDirectory }
  files.foldl (fun fs (file, content) => place fs (Utf8Text.utf8 file.path) (nodeOf file content)) there

end FileListing
end HashedTree
