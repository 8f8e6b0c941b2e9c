import HashedTree.Proofs.BuildSteps
import HashedTree.Proofs.DirectoryPortrait

/-!
# A build depends on what stands beneath its root

Two directories hold the same if every sequence of names leads in both of them to things of one kind,
with the same permissions, bytes and target, or in both of them to nothing. The order of a listing
plays no part in this, and neither does anything that a link points to. A build makes the same of two
such directories, in whatever file systems they stand.
-/
namespace HashedTree.BuildLocality
open ByteBlocks Utf8Text PathText TreeBuilding NameOrder Outcomes PathResolution BuildSteps
open DirectoryPortrait

/-- What is seen of something without a look at its entries. -/
def face : Inode → Inode
  | .file mode content => .file mode content
  | .directory mode _ => .directory mode []
  | .symlink target => .symlink target
  | .special mode => .special mode

/-- The same names lead to the same things. -/
def SameBeneath (a b : Inode) : Prop := ∀ names, (a.at? names).map face = (b.at? names).map face

variable {a b : Inode} {name : Bytes}

theorem SameBeneath.symm (same : SameBeneath a b) : SameBeneath b a := fun names => (same names).symm

theorem SameBeneath.face_eq (same : SameBeneath a b) : face a = face b := Option.some.inj (same [])

theorem SameBeneath.isDirectory (same : SameBeneath a b) (h : a.isDirectory) : b.isDirectory := by
  have hface := same.face_eq
  cases a with
  | directory mode entries =>
    cases b with
    | directory mode' entries' => rfl
    | file mode' content => cases hface
    | symlink target => cases hface
    | special mode' => cases hface
  | file mode content => cases h
  | symlink target => cases h
  | special mode => cases h

theorem SameBeneath.child {child : Inode} (same : SameBeneath a b)
    (hchild : a.child? name = some child) :
    ∃ twin, b.child? name = some twin ∧ SameBeneath child twin := by
  have hface := same [name]
  rw [Inode.at?, hchild, Inode.at?] at hface
  cases htwin : b.child? name with
  | none =>
    rw [htwin] at hface
    cases hface
  | some twin =>
    refine ⟨twin, rfl, fun names => ?_⟩
    have hnames := same (name :: names)
    rwa [Inode.at?, hchild, Inode.at?, htwin] at hnames

/-- Every entry of one directory has its twin in the other one. -/
theorem SameBeneath.entry {mode mode' : Nat} {entries entries' : List (Bytes × Inode)}
    {inode : Inode} (same : SameBeneath (.directory mode entries) (.directory mode' entries'))
    (distinct : (entries.map Prod.fst).Nodup) (hmem : (name, inode) ∈ entries) :
    ∃ twin, (name, twin) ∈ entries' ∧ SameBeneath inode twin := by
  obtain ⟨twin, htwin, hsame⟩ := same.child (child?_of_mem distinct hmem)
  exact ⟨twin, mem_of_child? htwin, hsame⟩

/-- Listed in another order, a directory holds the same. -/
theorem sameBeneath_of_perm {mode : Nat} {entries entries' : List (Bytes × Inode)}
    (distinct : (entries.map Prod.fst).Nodup) (perm : entries.Perm entries') :
    SameBeneath (.directory mode entries) (.directory mode entries') := by
  have distinct' : (entries'.map Prod.fst).Nodup := (perm.map Prod.fst).nodup_iff.mp distinct
  have hchild : ∀ name, (Inode.directory mode entries).child? name =
      (Inode.directory mode entries').child? name := by
    intro name
    ext inode
    constructor
    · intro h
      exact child?_of_mem distinct' (perm.subset (mem_of_child? h))
    · intro h
      exact child?_of_mem distinct (perm.symm.subset (mem_of_child? h))
  intro names
  cases names with
  | nil => rfl
  | cons name rest => rw [Inode.at?, hchild, Inode.at?]

section Rights
variable {fs fs' : FileSystem} {hasher : ContentHasher} {path : Bytes} {mode : Nat}

private theorem grants_eq (heeds : fs.heedsModes = fs'.heedsModes) (weight mode : Nat) :
    fs.grants weight mode = fs'.grants weight mode := by
  rw [FileSystem.grants, heeds, FileSystem.grants]

private theorem readInode_eq (heeds : fs.heedsModes = fs'.heedsModes) (inode : Inode) :
    fs.readInode inode = fs'.readInode inode := by
  have hgrants : fs.mayRead = fs'.mayRead := funext (grants_eq heeds _)
  cases inode with
  | file mode content => rw [FileSystem.readInode, hgrants, FileSystem.readInode]
  | directory mode entries => rw [FileSystem.readInode, hgrants, FileSystem.readInode]
  | symlink target => rfl
  | special mode => rw [FileSystem.readInode, hgrants, FileSystem.readInode]

mutual
/-- A walk consults the system about rights only. -/
theorem result_walkNode_eq (heeds : fs.heedsModes = fs'.heedsModes) {path : Bytes}
    {name : Option Bytes} (inode : Inode) :
    (walkNode fs hasher path name inode).result =
      (walkNode fs' hasher path name inode).result := by
  cases inode with
  | file mode content => rw [result_walkNode_file, readInode_eq heeds, result_walkNode_file]
  | directory mode entries =>
    have hlistable : listable fs path mode = listable fs' path mode := by
      rw [listable, FileSystem.mayRead, grants_eq heeds, listable, FileSystem.mayRead]
    rw [result_walkNode_directory, hlistable, result_walkEntries_eq heeds entries,
      result_walkNode_directory]
  | symlink target => rw [result_walkNode_symlink, result_walkNode_symlink]
  | special mode => rfl

theorem result_walkEntries_eq (heeds : fs.heedsModes = fs'.heedsModes) {path : Bytes} {mode : Nat}
    (entries : List (Bytes × Inode)) :
    (walkEntries fs hasher path mode entries).result =
      (walkEntries fs' hasher path mode entries).result := by
  cases entries with
  | nil => rfl
  | cons entry rest =>
    obtain ⟨name, inode⟩ := entry
    have hexaminable : examinable fs (join path name) mode = examinable fs' (join path name) mode := by
      rw [examinable, FileSystem.maySearch, grants_eq heeds, examinable, FileSystem.maySearch]
    rw [result_walkEntries_cons, hexaminable, result_walkNode_eq heeds inode,
      result_walkEntries_eq heeds rest, result_walkEntries_cons]
end

end Rights

section Walking
variable {fs fs' : FileSystem} {hasher : ContentHasher}

/-- The node that is made of an entry bears the entry's name. -/
private theorem name_of_walkNode {path : Bytes} {inode : Inode} {node : Node}
    (h : (walkNode fs hasher path (some name) inode).result = .ok node) : utf8 node.name = name :=
  utf8_of_nameText (nameText_of_walkNode h)

private theorem exists_forall₂ {α β : Type} {R : α → β → Prop} {as : List α}
    (h : ∀ a ∈ as, ∃ b, R a b) : ∃ bs, List.Forall₂ R as bs := by
  induction as with
  | nil => exact ⟨[], .nil⟩
  | cons a as ih =>
    rw [List.forall_mem_cons] at h
    obtain ⟨b, hb⟩ := h.1
    obtain ⟨bs, hbs⟩ := ih h.2
    exact ⟨b :: bs, .cons hb hbs⟩

/-- Whatever a walk makes of one thing it makes of another one that holds the same. -/
theorem walkNode_of_sameBeneath {path : Bytes} {name : Option Bytes} {node : Node}
    (distinct : DistinctNames a) (distinct' : DistinctNames b) (same : SameBeneath a b)
    (h : (walkNode fs hasher path name a).result = .ok node) :
    (walkNode fs hasher path name b).result = .ok node := by
  induction a using inode_induction generalizing b path name node with
  | file mode content =>
    cases b <;> cases same.face_eq
    exact h
  | symlink target =>
    cases b <;> cases same.face_eq
    exact h
  | special mode => cases h
  | directory mode entries ih =>
    cases b with
    | directory mode' entries' =>
      obtain rfl : mode = mode' := (Inode.directory.inj same.face_eq).1
      cases distinct with | directory _ _ distinct beneath =>
      cases distinct' with | directory _ _ distinct' beneath' =>
      obtain ⟨text, nodes, htext, hlistable, hnodes, rfl⟩ := walkNode_directory_eq_ok.mp h
      rw [walkEntries_eq_ok] at hnodes
      have htwin : ∀ entry' ∈ entries', ∃ node, node ∈ nodes ∧
          examinable fs (join path entry'.1) mode = .ok () ∧
            (walkNode fs hasher (join path entry'.1) (some entry'.1) entry'.2).result = .ok node := by
        rintro ⟨key, twin⟩ htwin
        obtain ⟨inode, hmem, hsame⟩ := same.symm.entry distinct' htwin
        obtain ⟨node, hnode, hexaminable, hwalk⟩ := exists_right_of_mem hnodes hmem
        exact ⟨node, hnode, hexaminable,
          ih _ hmem (beneath _ hmem) (beneath' _ htwin) hsame.symm hwalk⟩
      obtain ⟨nodes', htwins⟩ := exists_forall₂ htwin
      have hnodes' := htwins.imp fun _ _ h => h.2
      -- Both listings give the same nodes, in an order of their own.
      have hmem_iff : ∀ node, node ∈ nodes ↔ node ∈ nodes' := by
        intro node
        constructor
        · intro hnode
          obtain ⟨⟨key, inode⟩, hmem, -, hwalk⟩ := exists_right_of_mem hnodes.flip hnode
          obtain ⟨twin, htwin, hsame⟩ := same.entry distinct hmem
          obtain ⟨node', hnode', -, hwalk'⟩ := exists_right_of_mem hnodes' htwin
          have hsameNode := ih _ hmem (beneath _ hmem) (beneath' _ htwin) hsame hwalk
          obtain rfl : node' = node := Except.ok.inj (hwalk'.symm.trans hsameNode)
          exact hnode'
        · intro hnode'
          obtain ⟨entry', -, hnode, -⟩ := exists_right_of_mem htwins.flip hnode'
          exact hnode
      refine walkNode_directory_eq_ok.mpr
        ⟨text, nodes', htext, hlistable, walkEntries_eq_ok.mpr hnodes', ?_⟩
      have hsorted : Node.sortByName nodes = Node.sortByName nodes' :=
        sortByName_eq_of_mem_iff (nodup_names (fun h => name_of_walkNode h.2) hnodes distinct)
          (nodup_names (fun h => name_of_walkNode h.2) hnodes' distinct') hmem_iff
      rw [Node.ofEntries, ← hsorted, Node.ofEntries]
    | file mode content => cases same.face_eq
    | symlink target => cases same.face_eq
    | special mode => cases same.face_eq

theorem buildTree_of_sameBeneath {path : Bytes} {tree : Node}
    (heeds : fs.heedsModes = fs'.heedsModes) (hlookup : fs.lookup true path = .ok a)
    (hlookup' : fs'.lookup true path = .ok b) (distinct : DistinctNames a)
    (distinct' : DistinctNames b) (same : SameBeneath a b)
    (built : buildTree fs hasher path = .ok tree) : buildTree fs' hasher path = .ok tree := by
  obtain ⟨directory, node, hdirectory, isDirectory, hnode, rfl⟩ := buildTree_eq_ok.mp built
  obtain rfl : directory = a := Except.ok.inj (hdirectory.symm.trans hlookup)
  rw [result_walkNode_eq heeds] at hnode
  have isDirectory' : b.isDirectory := same.isDirectory isDirectory
  exact buildTree_eq_ok.mpr ⟨b, node, hlookup', isDirectory',
    walkNode_of_sameBeneath distinct distinct' same hnode, rfl⟩

/-- Where the same stands beneath one path in two file systems, a build succeeds on both or on
neither, with the same tree and the same digest. -/
theorem buildTree_local {path : Bytes} (heeds : fs.heedsModes = fs'.heedsModes)
    (hlookup : fs.lookup true path = .ok a) (hlookup' : fs'.lookup true path = .ok b)
    (distinct : DistinctNames a) (distinct' : DistinctNames b) (same : SameBeneath a b) :
    (∀ tree, buildTree fs hasher path = .ok tree ↔ buildTree fs' hasher path = .ok tree) ∧
      ∀ digest, rootHash fs hasher path = .ok digest ↔ rootHash fs' hasher path = .ok digest := by
  have htree : ∀ tree, buildTree fs hasher path = .ok tree ↔ buildTree fs' hasher path = .ok tree :=
    fun tree =>
      ⟨buildTree_of_sameBeneath heeds hlookup hlookup' distinct distinct' same,
        buildTree_of_sameBeneath heeds.symm hlookup' hlookup distinct' distinct same.symm⟩
  refine ⟨htree, fun digest => ?_⟩
  simp only [rootHash, map_eq_ok, htree]

end Walking

/-- A directory with a link to a file outside. -/
def linkedOutside : FileSystem where
  root := .directory 0o755
    [(utf8 "x", .file 0o644 (utf8 "text")),
      (utf8 "r", .directory 0o755
        [(utf8 "b", .file 0o600 []), (utf8 "out", .symlink (utf8 "/x")),
          (utf8 "d", .directory 0o700 [])])]
  workingDirectory := []
  heedsModes := true

/-- The same behind a link and in another order; there is no file outside. -/
def relisted : FileSystem where
  root := .directory 0o700
    [(utf8 "r", .symlink (utf8 "s")),
      (utf8 "s", .directory 0o755
        [(utf8 "d", .directory 0o700 []), (utf8 "b", .file 0o600 []),
          (utf8 "out", .symlink (utf8 "/x"))])]
  workingDirectory := []
  heedsModes := true

theorem relisted_builds_alike :
    linkedOutside.contentAt (utf8 "/r/out") = .ok (utf8 "text") ∧
      relisted.contentAt (utf8 "/r/out") = .error .notFound ∧
      (∃ tree, buildTree linkedOutside .chunked (utf8 "/r") = .ok tree) ∧
      (∀ tree, buildTree linkedOutside .chunked (utf8 "/r") = .ok tree ↔
        buildTree relisted .chunked (utf8 "/r") = .ok tree) ∧
      ∀ digest, rootHash linkedOutside .chunked (utf8 "/r") = .ok digest ↔
        rootHash relisted .chunked (utf8 "/r") = .ok digest := by
  have distinct : ∀ entries : List (Bytes × Inode), (entries.map Prod.fst).Nodup →
      (∀ entry ∈ entries, entry = (utf8 "b", .file 0o600 []) ∨
        entry = (utf8 "out", .symlink (utf8 "/x")) ∨ entry = (utf8 "d", .directory 0o700 [])) →
      DistinctNames (.directory 0o755 entries) := by
    intro entries hnodup hentries
    refine .directory _ _ hnodup fun entry hmem => ?_
    rcases hentries entry hmem with rfl | rfl | rfl
    · exact .file _ _
    · exact .symlink _
    · exact .directory _ _ (by decide) (by simp)
  refine ⟨rfl, rfl, ⟨_, rfl⟩, buildTree_local rfl rfl rfl ?_ ?_ ?_⟩
  · exact distinct _ (by decide) (by simp)
  · exact distinct _ (by decide) (by simp)
  · exact sameBeneath_of_perm (by decide) (@List.perm_append_comm _ [_, _] [_])

end HashedTree.BuildLocality
