import HashedTree.Proofs.BuildDefects
import HashedTree.Proofs.BuiltTrees

/-!
# How the root of a build is spelled

A walk uses the path of a directory to reach what stands there, to name it and to name it in errors.
On another path to the same directory it makes the same node under the name that this path ends in,
and the root is renamed in any case. Only a last name that is no text stands in the way: it is
refused before it is replaced.
-/
namespace HashedTree.RootSpellings
open ByteBlocks PathText Utf8Text TreeBuilding BuildSteps BuildDefects DirectoryPortrait
open PathResolution BuiltTrees Outcomes

/-- What becomes of a content does not depend on the path that it was read from. -/
def Pathless (hasher : ContentHasher) : Prop :=
  ∀ path other content, hasher path content = hasher other content

theorem pathless_chunked : Pathless .chunked := fun _ _ _ => rfl

/-- No path that a walk takes from here on is too long. -/
def Short (path : Bytes) (inode : Inode) : Prop :=
  ∀ names below, inode.at? names = some below →
    (pathTo path names).length < FileSystem.pathLimit

section Lengths
variable {fs : FileSystem} {path name : Bytes} {mode : Nat} {inode : Inode}
  {entries : List (Bytes × Inode)}

theorem Short.reachable (h : Short path inode) : TreeBuilding.reachable path = .ok () :=
  if_neg (Nat.not_le.mpr (h [] inode rfl))

theorem Short.entry (h : Short path (.directory mode entries))
    (distinct : (entries.map Prod.fst).Nodup) (hmem : (name, inode) ∈ entries) :
    Short (join path name) inode := by
  intro names below hat
  refine h (name :: names) below ?_
  rw [Inode.at?, child?_of_mem distinct hmem, Option.bind_some, hat]

theorem short_of_entries (length_lt : path.length < FileSystem.pathLimit)
    (each : ∀ entry ∈ inode.entries, Short (join path entry.1) entry.2) : Short path inode := by
  intro names below hat
  cases names with
  | nil => exact length_lt
  | cons name names =>
    rw [Inode.at?, Option.bind_eq_some_iff] at hat
    obtain ⟨child, hchild, hbelow⟩ := hat
    exact each _ (mem_of_child? hchild) names below hbelow

private theorem guarded_eq_ok {x : Except SystemError Unit} {granted : Bool} {e : SystemError} :
    (x.bind fun _ => if granted then .ok () else .error e) = .ok () ↔ x = .ok () ∧ granted := by
  cases x with
  | error cause => simp
  | ok _ => cases granted <;> simp

theorem listable_eq_ok :
    listable fs path mode = .ok () ↔ TreeBuilding.reachable path = .ok () ∧ fs.mayRead mode :=
  guarded_eq_ok

theorem examinable_eq_ok :
    examinable fs path mode = .ok () ↔
      TreeBuilding.reachable path = .ok () ∧ fs.maySearch mode := guarded_eq_ok

end Lengths

variable {fs : FileSystem} {hasher : ContentHasher} {p q : Bytes} {name : Option Bytes}
  {directory inode : Inode} {node tree : Node}

/-- The same node is made on another path, under the name that it has there. -/
theorem walkNode_relocated (pathless : Pathless hasher) (distinct : DistinctNames inode)
    (short : Short q inode) (h : (walkNode fs hasher p name inode).result = .ok node)
    (other : Option Bytes) :
    (walkNode fs hasher q other inode).result = (nameText q other).map node.rename := by
  induction inode using inode_induction generalizing p q name other node with
  | file mode content =>
    obtain ⟨text, digest, -, hdigest, rfl⟩ := walkNode_file_eq_ok.mp h
    rw [result_walkNode_file, pathless q p, hdigest, ok_mapError, ok_bind]
    rfl
  | directory mode entries ih =>
    obtain ⟨text, nodes, -, hlistable, hnodes, rfl⟩ := walkNode_directory_eq_ok.mp h
    cases distinct with
    | directory _ _ distinct beneath =>
      have hlistable' : listable fs q mode = .ok () :=
        listable_eq_ok.mpr ⟨short.reachable, (listable_eq_ok.mp hlistable).2⟩
      have walked := (List.forall₂_and_left _ _).mpr
        ⟨fun entry hentry => hentry, walkEntries_eq_ok.mp hnodes⟩
      have hnodes' : (walkEntries fs hasher q mode entries).result = .ok nodes := by
        refine walkEntries_eq_ok.mpr (walked.imp ?_)
        rintro entry child ⟨hmem, hexaminable, hchild⟩
        have shortEntry := short.entry distinct hmem
        -- below the root a name comes from the listing, and the path does not show in it
        have hname : nameText (join q entry.1) (some entry.1) = .ok child.name :=
          nameText_some_eq_ok.mpr (nameText_some_eq_ok.mp (nameText_of_walkNode hchild))
        refine ⟨examinable_eq_ok.mpr ⟨shortEntry.reachable, ?_⟩, ?_⟩
        · exact (examinable_eq_ok.mp hexaminable).2
        · rw [ih entry hmem (beneath entry hmem) shortEntry hchild, hname, ok_map, Node.rename_name]
      rw [result_walkNode_directory, hlistable', ok_mapError, ok_bind, hnodes', ok_bind]
      rfl
  | symlink target =>
    obtain ⟨text, link, -, hlink, rfl⟩ := walkNode_symlink_eq_ok.mp h
    rw [result_walkNode_symlink, targetText_eq_ok.mpr hlink, ok_bind]
    rfl
  | special mode => cases h

/-- What comes of a build from another path to the same directory is decided by the name that this
path ends in. -/
theorem buildTree_relocated (pathless : Pathless hasher) (distinct : DistinctNames directory)
    (hp : fs.lookup true p = .ok directory) (hq : fs.lookup true q = .ok directory)
    (short : Short q directory) (built : buildTree fs hasher p = .ok tree) :
    buildTree fs hasher q = (nameText q (fileName? q)).map fun _ => tree := by
  obtain ⟨found, node, hfound, isDirectory, hnode, rfl⟩ := buildTree_eq_ok.mp built
  obtain rfl : found = directory := Except.ok.inj (hfound.symm.trans hp)
  rw [buildTree_eq, hq]
  dsimp only
  rw [if_pos isDirectory, walkNode_relocated pathless distinct short hnode]
  cases nameText q (fileName? q) with
  | error e => rfl
  | ok text => rw [ok_map, ok_map, Node.rename_rename, ok_map]

/-- Two paths to one directory give one tree, unless the second one ends in a name that is no text;
then it is refused for this name. -/
theorem buildTree_respelled (pathless : Pathless hasher) (distinct : DistinctNames directory)
    (hp : fs.lookup true p = .ok directory) (hq : fs.lookup true q = .ok directory)
    (short : Short q directory) (built : buildTree fs hasher p = .ok tree) :
    ((∀ name, fileName? q = some name → ∃ text, ofUtf8? name = some text) →
      buildTree fs hasher q = .ok tree) ∧
    ∀ name, fileName? q = some name → ofUtf8? name = none →
      buildTree fs hasher q = .error (.invalidName q) := by
  rw [buildTree_relocated pathless distinct hp hq short built]
  constructor
  · intro isText
    cases hname : fileName? q with
    | none => rfl
    | some name =>
      obtain ⟨text, htext⟩ := isText name hname
      rw [nameText_some_eq_ok.mpr htext, ok_map]
  · intro name hname noText
    rw [nameText_eq_error.mpr ⟨name, hname, noText, rfl⟩, error_map]

/-- The directory of `linkedTree` behind a link and out of a directory in it again. -/
theorem linkedTree_respelled :
    Pathless .chunked ∧ DistinctNames linkedSystem.root ∧
      buildTree linkedSystem .chunked (utf8 "r") = .ok linkedTree ∧
      ∃ directory, linkedSystem.lookup true (utf8 "r") = .ok directory ∧
        linkedSystem.lookup true (utf8 "alias/d/..") = .ok directory ∧
        Short (utf8 "alias/d/..") directory ∧
        buildTree linkedSystem .chunked (utf8 "alias/d/..") = .ok linkedTree := by
  obtain ⟨directory, hp, hq, hentries⟩ : ∃ directory,
      linkedSystem.lookup true (utf8 "r") = .ok directory ∧
        linkedSystem.lookup true (utf8 "alias/d/..") = .ok directory ∧
        directory.entries = [(utf8 "loop", .symlink (utf8 "loop")),
          (utf8 "d", .directory 0o700 [(utf8 "g", .file 0o600 [])]),
          (utf8 "gone", .symlink (utf8 "nowhere")), (utf8 "Z", .file 0o644 (utf8 "text"))] :=
    ⟨_, rfl, rfl, rfl⟩
  have distinct := distinctNames_linkedSystem.lookup hp
  have built : buildTree linkedSystem .chunked (utf8 "r") = .ok linkedTree := rfl
  have short : Short (utf8 "alias/d/..") directory := by
    refine short_of_entries (by decide) ?_
    rw [hentries]
    simp only [List.forall_mem_cons]
    refine ⟨short_of_entries (by decide) nofun, short_of_entries (by decide) ?_,
      short_of_entries (by decide) nofun, short_of_entries (by decide) nofun, List.forall_mem_nil _⟩
    exact List.forall_mem_singleton.mpr (short_of_entries (by decide) nofun)
  exact ⟨pathless_chunked, distinctNames_linkedSystem, built, directory, hp, hq, short,
    (buildTree_respelled pathless_chunked distinct hp hq short built).1 nofun⟩

/-- A directory, and a link to it whose name is no text. -/
def misnamedSystem : FileSystem where
  root := .directory 0o755
    [(utf8 "r", .directory 0o755 [(utf8 "f", .file 0o644 (utf8 "text"))]),
      ([0xff], .symlink (utf8 "r"))]
  workingDirectory := []
  heedsModes := true

theorem wellNamed_misnamedSystem : WellNamed misnamedSystem.root := by
  refine .directory _ _ (by decide) (by decide) ?_
  rw [List.forall_mem_cons, List.forall_mem_singleton]
  exact ⟨.directory _ _ (by decide) (by decide) (List.forall_mem_singleton.mpr (.file _ _)),
    .symlink _⟩

/-- A root is refused for the name at the end of its path, though the tree does not keep it. -/
theorem respelling_is_not_free :
    ¬∀ (fs : FileSystem) (p q : Bytes) (directory : Inode) (tree : Node), WellNamed fs.root →
      fs.lookup true p = .ok directory → fs.lookup true q = .ok directory → Short p directory →
      Short q directory → buildTree fs .chunked p = .ok tree →
      buildTree fs .chunked q = .ok tree := by
  intro free
  obtain ⟨tree, built⟩ : ∃ tree, buildTree misnamedSystem .chunked (utf8 "r") = .ok tree := ⟨_, rfl⟩
  have refused : buildTree misnamedSystem .chunked [0xff] = .error (.invalidName [0xff]) := rfl
  have shortName : Short (utf8 "r") (.directory 0o755 [(utf8 "f", .file 0o644 (utf8 "text"))]) :=
    short_of_entries (by decide)
      (List.forall_mem_singleton.mpr (short_of_entries (by decide) nofun))
  have shortLink : Short [0xff] (.directory 0o755 [(utf8 "f", .file 0o644 (utf8 "text"))]) :=
    short_of_entries (by decide)
      (List.forall_mem_singleton.mpr (short_of_entries (by decide) nofun))
  have accepted := free misnamedSystem (utf8 "r") [0xff] _ tree wellNamed_misnamedSystem rfl rfl
    shortName shortLink built
  cases accepted.symm.trans refused

end HashedTree.RootSpellings
