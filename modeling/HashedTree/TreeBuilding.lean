import HashedTree.BuildError
import HashedTree.ContentDigest
import HashedTree.FileSystem
import HashedTree.NodeStatistics

/-! # Building the tree of a directory

The root is resolved like any path; below it, symbolic links are nodes of their own and are never
followed. The first failure ends a build. A request to the system may fail although the state of the
file system allows it, and a listing may break off on the way. A walk also notes what it does, in
order. Its result does not depend on these notes, unless they are written to a file that it reads.
-/
namespace HashedTree
open ByteBlocks PathText Utf8Text

/-- How the content of a file is hashed, given its path and what reading it gives. -/
abbrev ContentHasher := Bytes → Except SystemError Bytes → Except SystemError Digest

def ContentHasher.chunked : ContentHasher := fun _ content => content.map ContentDigest.contentDigest

/-- What a build notes. -/
inductive BuildEvent where
  | started
  | rootNotFound (cause : SystemError)
  | rootNotADirectory
  | builtDirectory (path : Bytes) (entryCount : Nat)
  | builtLink (path : Bytes) (target : String)
  | hashedFile (path : Bytes) (hash : Digest) (size : UInt64)
  | failed (error : BuildError)
  | completed (statistics : Statistics) (hash : Digest)

/-- The requests that fail although the state of the file system allows them. -/
structure Incidents where
  examining : Bytes → Option SystemError
  opening : Bytes → Option SystemError
  /-- The request for one more entry of the directory at a path, after so many of them. -/
  listing : Bytes → Nat → Option SystemError
  readingLink : Bytes → Option SystemError
  readingFile : Bytes → Option SystemError

def Incidents.none : Incidents :=
  ⟨fun _ => .none, fun _ => .none, fun _ _ => .none, fun _ => .none, fun _ => .none⟩

/-- What has been appended to the file at a path by the time that these events are noted. -/
abbrev Growth := List BuildEvent → Bytes → Bytes

def Growth.none : Growth := fun _ _ => []

/-- What was noted, and the result. -/
structure Walk (α : Type) where
  events : List BuildEvent
  result : Except BuildError α

namespace Walk

instance : Monad Walk where
  pure a := ⟨[], .ok a⟩
  bind w f :=
    match w.result with
    | .ok a => ⟨w.events ++ (f a).events, (f a).result⟩
    | .error e => ⟨w.events, .error e⟩

def note (event : BuildEvent) : Walk Unit := ⟨[event], .ok ()⟩

def ofExcept {α : Type} (result : Except BuildError α) : Walk α := ⟨[], result⟩

@[simp] theorem result_pure {α : Type} (a : α) : (pure a : Walk α).result = .ok a := rfl

@[simp] theorem result_bind {α β : Type} (w : Walk α) (f : α → Walk β) :
    (w >>= f).result = w.result.bind fun a => (f a).result := by
  obtain ⟨events, result⟩ := w
  cases result <;> rfl

@[simp] theorem result_note (event : BuildEvent) : (note event).result = .ok () := rfl

@[simp] theorem result_ofExcept {α : Type} (result : Except BuildError α) :
    (ofExcept result).result = result := rfl

end Walk

namespace TreeBuilding
open Walk

/-- The text of a node's name. A root without a name has an empty one until it is renamed. -/
def nameText (path : Bytes) : Option Bytes → Except BuildError String
  | none => .ok ""
  | some name =>
    match ofUtf8? name with
    | some text => .ok text
    | none => .error (.invalidName path)

def reachable (path : Bytes) : Except SystemError Unit :=
  if FileSystem.pathLimit ≤ path.length then .error .nameTooLong else .ok ()

def listable (fs : FileSystem) (path : Bytes) (mode : Nat) : Except SystemError Unit :=
  (reachable path).bind fun _ => if fs.mayRead mode then .ok () else .error .permissionDenied

def examinable (fs : FileSystem) (path : Bytes) (mode : Nat) : Except SystemError Unit :=
  (reachable path).bind fun _ => if fs.maySearch mode then .ok () else .error .permissionDenied

def unlessIncident : Option SystemError → Except SystemError Unit
  | none => .ok ()
  | some cause => .error cause

@[simp] theorem unlessIncident_eq_error {incident : Option SystemError} {cause : SystemError} :
    unlessIncident incident = .error cause ↔ incident = some cause := by
  cases incident <;> simp [unlessIncident]

@[simp] theorem unlessIncident_eq_ok {incident : Option SystemError} {done : Unit} :
    unlessIncident incident = .ok done ↔ incident = none := by
  cases incident <;> simp [unlessIncident]

def examined (now : Incidents) (fs : FileSystem) (path : Bytes) (mode : Nat) :
    Except SystemError Unit :=
  (examinable fs path mode).bind fun _ => unlessIncident (now.examining path)

def opened (now : Incidents) (fs : FileSystem) (path : Bytes) (mode : Nat) :
    Except SystemError Unit :=
  (listable fs path mode).bind fun _ => unlessIncident (now.opening path)

def contentRead (now : Incidents) (fs : FileSystem) (path : Bytes) (inode : Inode) :
    Except SystemError Bytes :=
  (fs.readInode inode).bind fun content =>
    (unlessIncident (now.readingFile path)).map fun _ => content

def targetText (path target : Bytes) : Except BuildError String :=
  match ofUtf8? target with
  | none => .error (.invalidName path)
  | some target => .ok target

mutual
/-- The walk at a node, when `noted` is what was noted before. -/
def visit (now : Incidents) (growth : Growth) (fs : FileSystem) (hasher : ContentHasher)
    (noted : List BuildEvent) (path : Bytes) (name : Option Bytes) : Inode → Walk Node
  | .file mode content => do
    let content := content ++ growth noted path
    let size := UInt64.ofNat content.length
    let digest ← ofExcept
      ((hasher path (contentRead now fs path (.file mode content))).mapError (.contentHash path))
    note (.hashedFile path digest size)
    let text ← ofExcept (nameText path name)
    pure (.file text digest size)
  | .directory mode entries => do
    ofExcept ((opened now fs path mode).mapError (.readDirectory path))
    let nodes ← visitEntries now growth fs hasher noted path mode 0 entries
    note (.builtDirectory path nodes.length)
    let text ← ofExcept (nameText path name)
    pure (Node.ofEntries text nodes)
  | .symlink target => do
    ofExcept ((unlessIncident (now.readingLink path)).mapError (.readLink path))
    let target ← ofExcept (targetText path target)
    note (.builtLink path target)
    let text ← ofExcept (nameText path name)
    pure (Node.ofTarget text target)
  | .special _ => ofExcept (.error (.unsupportedKind path))

/-- The walk through what a listing still has to give, after so many entries. -/
def visitEntries (now : Incidents) (growth : Growth) (fs : FileSystem) (hasher : ContentHasher)
    (noted : List BuildEvent) (directory : Bytes) (mode given : Nat) :
    List (Bytes × Inode) → Walk (List Node)
  | [] => do
    ofExcept ((unlessIncident (now.listing directory given)).mapError (.readDirectory directory))
    pure []
  | (name, inode) :: rest => do
    ofExcept ((unlessIncident (now.listing directory given)).mapError (.readDirectory directory))
    let path := join directory name
    ofExcept ((examined now fs path mode).mapError (.stat path))
    let first := visit now growth fs hasher noted path (some name) inode
    let node ← first
    let nodes ←
      visitEntries now growth fs hasher (noted ++ first.events) directory mode (given + 1) rest
    pure (node :: nodes)
end

/-- The walk at a node without incidents, while no file grows. -/
def walkNode (fs : FileSystem) (hasher : ContentHasher) (path : Bytes) (name : Option Bytes)
    (inode : Inode) : Walk Node :=
  visit .none .none fs hasher [] path name inode

def walkEntries (fs : FileSystem) (hasher : ContentHasher) (directory : Bytes) (mode : Nat)
    (entries : List (Bytes × Inode)) : Walk (List Node) :=
  visitEntries .none .none fs hasher [] directory mode 0 entries

def rootName : String := "."

def notingFailure {α : Type} (w : Walk α) : Walk α :=
  match w.result with
  | .ok _ => w
  | .error e => ⟨w.events ++ [.failed e], w.result⟩

@[simp] theorem result_notingFailure {α : Type} (w : Walk α) :
    (notingFailure w).result = w.result := by
  unfold notingFailure
  split <;> rfl

def rootLookup (now : Incidents) (fs : FileSystem) (path : Bytes) : Except SystemError Inode :=
  (fs.lookup true path).bind fun inode =>
    (unlessIncident (now.examining path)).map fun _ => inode

/-- The directory at the root path; a symbolic link to a directory will do. -/
def rootDirectory (now : Incidents) (fs : FileSystem) (path : Bytes) : Walk Inode :=
  match rootLookup now fs path with
  | .error cause => ⟨[.rootNotFound cause], .error (.stat path cause)⟩
  | .ok inode =>
    if inode.isDirectory then pure inode
    else ⟨[.rootNotADirectory], .error (.notADirectory path)⟩

def buildAmid (now : Incidents) (growth : Growth) (fs : FileSystem) (hasher : ContentHasher)
    (path : Bytes) : Walk Node := do
  note .started
  let directory ← rootDirectory now fs path
  let node ← notingFailure (visit now growth fs hasher [.started] path (fileName? path) directory)
  let root := node.rename rootName
  note (.completed root.statistics root.hash)
  pure root

def build (fs : FileSystem) (hasher : ContentHasher) (path : Bytes) : Walk Node :=
  buildAmid .none .none fs hasher path

end TreeBuilding

def buildTree (fs : FileSystem) (hasher : ContentHasher) (path : Bytes) : Except BuildError Node :=
  (TreeBuilding.build fs hasher path).result

def rootHash (fs : FileSystem) (hasher : ContentHasher) (path : Bytes) :
    Except BuildError Digest :=
  (buildTree fs hasher path).map Node.hash

end HashedTree
