import HashedTree.PathText
import HashedTree.SystemError

/-! # A file system as a tree, and how paths lead through it

Every node but a symbolic link has permission bits, of which those of the owner count. A path is
followed component by component: each step needs the right to search the directory it starts from,
and symbolic links are replaced by their targets, at most forty times.
-/
namespace HashedTree
open ByteBlocks PathText

/-- What a directory may hold. The entries stand in the order in which they are listed. -/
inductive Inode where
  | file (mode : Nat) (content : Bytes)
  | directory (mode : Nat) (entries : List (Bytes × Inode))
  | symlink (target : Bytes)
  | special (mode : Nat)

namespace Inode

instance : Inhabited Inode := ⟨.directory 0 []⟩

def isDirectory : Inode → Bool
  | .directory _ _ => true
  | .file .. | .symlink _ | .special _ => false

def entries : Inode → List (Bytes × Inode)
  | .directory _ entries => entries
  | .file .. | .symlink _ | .special _ => []

/-- The permission bits; a symbolic link grants everything. -/
def mode : Inode → Nat
  | .file mode _ | .directory mode _ | .special mode => mode
  | .symlink _ => 0o777

def child? (name : Bytes) (inode : Inode) : Option Inode :=
  (inode.entries.find? (·.1 = name)).map Prod.snd

def at? (inode : Inode) : List Bytes → Option Inode
  | [] => some inode
  | name :: rest => (inode.child? name).bind (·.at? rest)

end Inode

/-- All nodes, the names that lead from the root to the working directory, and whether permission
bits are heeded. -/
structure FileSystem where
  root : Inode
  workingDirectory : List Bytes
  heedsModes : Bool

namespace FileSystem

def grants (fs : FileSystem) (weight mode : Nat) : Bool :=
  !fs.heedsModes || mode / weight % 2 = 1

def mayRead (fs : FileSystem) (mode : Nat) : Bool := fs.grants 0o400 mode

def mayWrite (fs : FileSystem) (mode : Nat) : Bool := fs.grants 0o200 mode

def maySearch (fs : FileSystem) (mode : Nat) : Bool := fs.grants 0o100 mode

def nameLimit : Nat := 255

def pathLimit : Nat := 4096

def linkLimit : Nat := 40

/-- Where a path ends. What is missing may have been asked for as a directory, by a slash at the end
of the path or of the last link's target. -/
inductive Place where
  | found (names : List Bytes) (inode : Inode)
  | missing (directory : List Bytes) (name : Bytes) (asDirectory : Bool)

/-- What is left of a path: where it starts, its components, and whether a slash at its end asks
for a directory. -/
structure Route where
  start : List Bytes
  components : List Bytes
  wantsDirectory : Bool

def route (directory : List Bytes) (path : Bytes) : Route :=
  ⟨if isAbsolute path then [] else directory, PathText.components path, endsInSlash path⟩

/-- Follows a route up to its end. `divert` continues behind a symbolic link. -/
def walkUntilLink (fs : FileSystem) (divert : Route → Except SystemError Place)
    (followLast wantsDirectory : Bool) :
    List Bytes → List Bytes → Except SystemError Place
  | position, [] =>
    match fs.root.at? position with
    | some inode => .ok (.found position inode)
    | none => .error .notFound
  | position, name :: rest =>
    match fs.root.at? position with
    | some (.directory mode entries) =>
      if !fs.maySearch mode then .error .permissionDenied
      else if name = here then walkUntilLink fs divert followLast wantsDirectory position rest
      else if name = parent then
        walkUntilLink fs divert followLast wantsDirectory position.dropLast rest
      else if nameLimit < name.length then .error .nameTooLong
      else
        match (Inode.directory mode entries).child? name with
        | none => if rest.isEmpty then .ok (.missing position name wantsDirectory) else .error .notFound
        | some (.symlink target) =>
          if rest.isEmpty ∧ !followLast ∧ !wantsDirectory then
            .ok (.found (position ++ [name]) (.symlink target))
          else
            let onward := route position target
            divert ⟨onward.start, onward.components ++ rest,
              if rest.isEmpty then onward.wantsDirectory || wantsDirectory else wantsDirectory⟩
        | some inode =>
          if inode.isDirectory ∨ (rest.isEmpty ∧ !wantsDirectory) then
            walkUntilLink fs divert followLast wantsDirectory (position ++ [name]) rest
          else .error .notADirectory
    | some _ => .error .notADirectory
    | none => .error .notFound

def walk (fs : FileSystem) (followLast : Bool) : Nat → Route → Except SystemError Place
  | 0, r => walkUntilLink fs (fun _ => .error .tooManyLinks) followLast r.wantsDirectory r.start
      r.components
  | links + 1, r => walkUntilLink fs (walk fs followLast links) followLast r.wantsDirectory r.start
      r.components

def route? (fs : FileSystem) (path : Bytes) : Except SystemError Route :=
  if path.contains 0 then .error .zeroByte
  else if path.isEmpty then .error .notFound
  else if pathLimit ≤ path.length then .error .nameTooLong
  else .ok (route fs.workingDirectory path)

def resolve (fs : FileSystem) (followLast : Bool) (path : Bytes) : Except SystemError Place :=
  (fs.route? path).bind (fs.walk followLast linkLimit)

/-- The node at a path. A link at its end is followed if asked for. -/
def lookup (fs : FileSystem) (followLast : Bool) (path : Bytes) : Except SystemError Inode :=
  (fs.resolve followLast path).bind fun
    | .found _ inode => .ok inode
    | .missing .. => .error .notFound

/-- Whether two paths lead to the same node. -/
def leadAlike (fs : FileSystem) (path other : Bytes) : Bool :=
  match fs.resolve true path, fs.resolve true other with
  | .ok (.found names _), .ok (.found names' _) => names = names'
  | _, _ => false

def readInode (fs : FileSystem) : Inode → Except SystemError Bytes
  | .file mode content => if fs.mayRead mode then .ok content else .error .permissionDenied
  | .directory mode _ =>
    if fs.mayRead mode then .error .isADirectory else .error .permissionDenied
  | .symlink _ => .error .tooManyLinks
  | .special mode => if fs.mayRead mode then .error .noSuchDevice else .error .permissionDenied

def contentAt (fs : FileSystem) (path : Bytes) : Except SystemError Bytes :=
  (fs.lookup true path).bind fs.readInode

end FileSystem
end HashedTree
