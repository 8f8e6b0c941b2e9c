import HashedTree.FileSystem

/-! # Changing a file system -/
namespace HashedTree
open ByteBlocks PathText

namespace Inode

def withEntries (inode : Inode) (entries : List (Bytes × Inode)) : Inode :=
  match inode with
  | .directory mode _ => .directory mode entries
  | other => other

def withMode (inode : Inode) (mode : Nat) : Inode :=
  match inode with
  | .file _ content => .file mode content
  | .directory _ entries => .directory mode entries
  | .special _ => .special mode
  | .symlink target => .symlink target

/-- A directory with an entry set; a new entry is listed last. -/
def put (inode : Inode) (name : Bytes) (child : Inode) : Inode :=
  if inode.entries.any (·.1 = name) then
    inode.withEntries (inode.entries.map fun e => if e.1 = name then (name, child) else e)
  else inode.withEntries (inode.entries ++ [(name, child)])

def drop (inode : Inode) (name : Bytes) : Inode :=
  inode.withEntries (inode.entries.filter (·.1 ≠ name))

def modifyAt (f : Inode → Inode) : List Bytes → Inode → Inode
  | [], inode => f inode
  | name :: rest, inode =>
    match inode.child? name with
    | some child => inode.put name (child.modifyAt f rest)
    | none => inode

end Inode

namespace FileSystem

def fileMode : Nat := 0o644

def directoryMode : Nat := 0o755

private def modify (fs : FileSystem) (names : List Bytes) (f : Inode → Inode) : FileSystem :=
  { fs with root := fs.root.modifyAt f names }

/-- Whether entries of the directory at the names may be made, moved and removed. -/
def mayChange (fs : FileSystem) (directory : List Bytes) : Bool :=
  match fs.root.at? directory with
  | some inode => inode.isDirectory && fs.mayWrite inode.mode && fs.maySearch inode.mode
  | none => false

private def add (fs : FileSystem) (directory : List Bytes) (name : Bytes) (child : Inode) :
    Except SystemError FileSystem :=
  if fs.mayChange directory then .ok (fs.modify directory (·.put name child))
  else .error .permissionDenied

/-- The entry that the last component of a path stands for, whether or not it is there. Links on
the way to its directory are followed; it itself is not, not even if a slash ends the path. -/
structure Slot where
  directory : List Bytes
  name : Bytes
  endsInSlash : Bool

namespace Slot

def names (slot : Slot) : List Bytes := slot.directory ++ [slot.name]

def inode? (slot : Slot) (fs : FileSystem) : Except SystemError (Option Inode) :=
  if nameLimit < slot.name.length then .error .nameTooLong
  else .ok ((fs.root.at? slot.directory).bind (·.child? slot.name))

end Slot

/-- The slot at the end of a path. The root, `.` and `..` are no entries. -/
def slotAt (fs : FileSystem) (path : Bytes) : Except SystemError (Option Slot) := do
  let r ← fs.route? path
  match r.components.getLast? with
  | none => return none
  | some name =>
    match ← fs.walk true linkLimit ⟨r.start, r.components.dropLast, true⟩ with
    | .missing .. => throw .notFound
    | .found directory inode =>
      if !inode.isDirectory then throw .notADirectory
      else if !fs.maySearch inode.mode then throw .permissionDenied
      else if name = here ∨ name = parent then return none
      else return some ⟨directory, name, r.wantsDirectory⟩

/-- Makes something at a path where nothing is. Only a directory can be made at a path that ends in
a slash. -/
def create (fs : FileSystem) (path : Bytes) (child : Inode) : Except SystemError FileSystem := do
  let some slot ← fs.slotAt path | throw .alreadyExists
  if (← slot.inode? fs).isSome then throw .alreadyExists
  else if slot.endsInSlash && !child.isDirectory then throw .notFound
  else fs.add slot.directory slot.name child

def createLink (fs : FileSystem) (path target : Bytes) : Except SystemError FileSystem := do
  let _ ← fs.route? target
  fs.create path (.symlink target)

def createSocket (fs : FileSystem) (path : Bytes) : Except SystemError FileSystem :=
  (fs.create path (.special directoryMode)).mapError fun cause =>
    if cause = .alreadyExists then .addressInUse else cause

/-- The path without its last component; nothing is left of a path of one component but the
directory it is read in, and the root has no directory above it. -/
def directoryOf? (path : Bytes) : Option Bytes :=
  match (essential path).reverse with
  | [] => none
  | _ :: above =>
    let kept := above.reverse
    let front := if isAbsolute path then [slash] else []
    some (front ++ (kept.intersperse [slash]).flatten)

def isDirectoryAt (fs : FileSystem) (path : Bytes) : Bool :=
  match fs.lookup true path with
  | .ok inode => inode.isDirectory
  | .error _ => false

/-- What a change that takes several steps leaves behind: the files after it, and the cause if it
failed. The steps before a failure have their effect. -/
structure Attempt where
  files : FileSystem
  failure? : Option SystemError

def Attempt.ofResult (before : FileSystem) : Except SystemError FileSystem → Attempt
  | .ok files => ⟨files, none⟩
  | .error cause => ⟨before, some cause⟩

/-- Makes the directory at a path whose parent should be there. One that is there already will do. -/
def makeDirectory (fs : FileSystem) (path : Bytes) : Attempt :=
  let made := Attempt.ofResult fs (fs.create path (.directory directoryMode []))
  if made.files.isDirectoryAt path then ⟨made.files, none⟩ else made

/-- Makes the directory at a path, and first every missing one on the way to it. -/
def makeDirectoriesWithin : Nat → FileSystem → Bytes → Attempt
  | 0, fs, _ => ⟨fs, none⟩
  | depth + 1, fs, path =>
    if path.isEmpty then ⟨fs, none⟩
    else
      let first := fs.makeDirectory path
      if first.failure? = some .notFound then
        match directoryOf? path with
        | none => first
        | some above =>
          let parents := makeDirectoriesWithin depth fs above
          if parents.failure?.isSome then parents else parents.files.makeDirectory path
      else first

def makeDirectories (fs : FileSystem) (path : Bytes) : Attempt :=
  makeDirectoriesWithin (path.length + 1) fs path

def changeContent (fs : FileSystem) (path : Bytes) (change : Bytes → Bytes) :
    Except SystemError FileSystem :=
  (fs.resolve true path).bind fun
    | .found names (.file mode content) =>
      if fs.mayWrite mode then .ok (fs.modify names fun _ => .file mode (change content))
      else .error .permissionDenied
    | .found _ (.directory _ _) => .error .isADirectory
    | .found _ (.symlink _) => .error .tooManyLinks
    | .found _ (.special _) => .error .noSuchDevice
    | .missing directory name asDirectory =>
      if asDirectory then .error .isADirectory
      else fs.add directory name (.file fileMode (change []))

def setContent (fs : FileSystem) (path content : Bytes) : Except SystemError FileSystem :=
  fs.changeContent path fun _ => content

def appendContent (fs : FileSystem) (path content : Bytes) : Except SystemError FileSystem :=
  fs.changeContent path fun old => old ++ content

def setMode (fs : FileSystem) (path : Bytes) (mode : Nat) : Except SystemError FileSystem :=
  (fs.resolve true path).bind fun
    | .found names _ => .ok (fs.modify names (·.withMode mode))
    | .missing .. => .error .notFound

/-- Moves what stands at a path to another path, where it replaces what is there: a directory an
empty directory, and anything else what is no directory. -/
def rename (fs : FileSystem) (path newPath : Bytes) : Except SystemError FileSystem := do
  let source? ← fs.slotAt path
  let goal? ← fs.slotAt newPath
  let (some source, some goal) := (source?, goal?) | throw .busy
  let some inode ← source.inode? fs | throw .notFound
  let replaced ← goal.inode? fs
  if !inode.isDirectory && (source.endsInSlash || goal.endsInSlash) then throw .notADirectory
  else if source.names.isPrefixOf goal.directory then throw .invalidArgument
  else if goal.names.isPrefixOf source.directory then throw .directoryNotEmpty
  else if source.names = goal.names then return fs
  else if !fs.mayChange source.directory || !fs.mayChange goal.directory then
    throw .permissionDenied
  else if inode.isDirectory && replaced.any (!·.isDirectory) then throw .notADirectory
  else if !inode.isDirectory && replaced.any (·.isDirectory) then throw .isADirectory
  else if inode.isDirectory && source.directory ≠ goal.directory && !fs.mayWrite inode.mode then
    throw .permissionDenied
  else if replaced.any (!·.entries.isEmpty) then throw .directoryNotEmpty
  else
    let without := fs.modify source.directory (·.drop source.name)
    return without.modify goal.directory (·.put goal.name inode)

mutual

/-- A node without what is beneath it, and whether all of that could be removed: a directory must
be readable, and must let its entries be changed if it has any. -/
def emptied (fs : FileSystem) : Inode → Inode × Bool
  | .directory mode entries =>
    if fs.mayRead mode && (fs.maySearch mode || entries.isEmpty) then
      let (left, done) := emptiedEntries fs (fs.mayWrite mode) entries
      (.directory mode left, done)
    else (.directory mode entries, false)
  | other => (other, true)

def emptiedEntries (fs : FileSystem) (mayRemove : Bool) :
    List (Bytes × Inode) → List (Bytes × Inode) × Bool
  | [] => ([], true)
  | (name, inode) :: rest =>
    match emptied fs inode with
    | (left, done) =>
      if done && mayRemove then emptiedEntries fs mayRemove rest else ((name, left) :: rest, false)

end

private def detach (fs : FileSystem) (path : Bytes) : Except SystemError FileSystem := do
  let some slot ← fs.slotAt path | throw .invalidArgument
  if !fs.mayChange slot.directory then throw .permissionDenied
  else return fs.modify slot.directory (·.drop slot.name)

def remove (fs : FileSystem) (path : Bytes) : Attempt :=
  match fs.resolve false path with
  | .error cause => ⟨fs, some cause⟩
  | .ok (.missing ..) => ⟨fs, some .notFound⟩
  | .ok (.found names inode) =>
    let (left, done) := fs.emptied inode
    let cleared := fs.modify names fun _ => left
    if done then .ofResult cleared (cleared.detach path) else ⟨cleared, some .permissionDenied⟩

end FileSystem
end HashedTree
