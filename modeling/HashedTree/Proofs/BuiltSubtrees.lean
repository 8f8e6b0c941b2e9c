import HashedTree.Proofs.BuildDefects
import HashedTree.Proofs.EntrySearch
import Mathlib.Data.List.Induction

/-!
# A directory beneath a root, built on its own

A tree that was built has at every path the node that the walk made there, and a build that starts
there makes the same one. So what is looked up in a tree and what is built from the path that leads
to it differ in nothing but the name.
-/
namespace HashedTree.BuiltSubtrees
open ByteBlocks PathText Utf8Text TreeBuilding NameOrder EntrySearch PathResolution BuildSteps
open BuildDefects Outcomes

section Names
variable {text : String}

theorem slash_mem_utf8 (h : '/' ∈ text.toList) : slash ∈ utf8 text := by
  rw [utf8_eq_flatMap, List.mem_flatMap]
  exact ⟨'/', h, by decide⟩

/-- A proper name that is text can be looked up. -/
theorem isEntryName_of_proper (proper : ProperName (utf8 text)) : IsEntryName text where
  nonempty h := proper.nonempty (h ▸ rfl)
  notHere h := proper.notHere (h ▸ rfl)
  notParent h := proper.notParent (h ▸ rfl)
  noSlash h := proper.noSlash (slash_mem_utf8 h)

end Names

variable {fs : FileSystem} {hasher : ContentHasher} {root name : Bytes} {names : List Bytes}
  {mode : Nat} {entries : List (Bytes × Inode)} {directory inode : Inode} {tree node : Node}

/-- Names lead to something that was walked, and to its node in a tree. -/
structure Located (fs : FileSystem) (hasher : ContentHasher) (root : Bytes) (tree : Node)
    (texts : List String) (inode : Inode) (node : Node) : Prop where
  entryNames : ∀ text ∈ texts, IsEntryName text
  stands : Stands fs root (texts.map utf8) inode
  walked_eq : visited .none fs hasher root (texts.map utf8) inode = .ok node
  follow_eq : ∃ found, tree.follow texts = some found ∧ found.rename rootName = node.rename rootName

theorem search_rename (node : Node) (name child : String) :
    (node.rename name).search child = node.search child := by
  rw [Node.search, Node.entries_rename, Node.search]

theorem located_root (named : WellNamed fs.root) (built : buildTree fs hasher root = .ok tree)
    (hlookup : fs.lookup true root = .ok directory) :
    ∃ node, Located fs hasher root tree [] directory node := by
  obtain ⟨found, node, hfound, isDirectory, hnode, rfl⟩ := buildTree_eq_ok.mp built
  obtain rfl : found = directory := Except.ok.inj (hfound.symm.trans hlookup)
  exact ⟨node, nofun, stands_at_root named hlookup isDirectory, hnode, _, rfl,
    node.rename_rename _ _⟩

/-- An entry of something located is located by one more name. -/
theorem Located.entry {texts : List String}
    (h : Located fs hasher root tree texts (.directory mode entries) node)
    (hmem : (name, inode) ∈ entries) :
    ∃ text child, utf8 text = name ∧ Located fs hasher root tree (texts ++ [text]) inode child := by
  obtain ⟨entryNames, stands, hwalked, parent, hfollow, hparent⟩ := h
  obtain ⟨text, nodes, -, -, hnodes, rfl⟩ := walkNode_directory_eq_ok.mp hwalked
  rw [walkEntries_eq_ok] at hnodes
  obtain ⟨child, hchild, hexaminable, hwalk⟩ := exists_right_of_mem hnodes hmem
  obtain rfl : utf8 child.name = name := utf8_of_nameText (nameText_of_walkNode hwalk)
  have wellNamed := stands.wellNamed
  cases wellNamed with
  | directory _ _ distinct proper beneath =>
    have hsearch : parent.search child.name = some child := by
      rw [← search_rename parent rootName, hparent, search_rename]
      refine search_ofEntries ?_ hchild
      exact nodup_names (fun h => utf8_of_nameText (nameText_of_walkNode h.2)) hnodes distinct
    have isEntryName : IsEntryName child.name := isEntryName_of_proper (proper _ hmem)
    have hnames : (texts ++ [child.name]).map utf8 = texts.map utf8 ++ [utf8 child.name] := by
      rw [List.map_append, List.map_singleton]
    refine ⟨child.name, child, rfl, ?_, ?_, ?_, child, ?_, rfl⟩
    · rw [List.forall_mem_append, List.forall_mem_singleton]
      exact ⟨entryNames, isEntryName⟩
    · rw [hnames]
      exact stands.entry hmem hexaminable
    · rw [hnames, ← stands.visited_entry hmem]
      exact hwalk
    · rw [follow_append, hfollow, Option.bind_some, follow_cons isEntryName, hsearch]
      rfl

/-- Whatever stands beneath the root of a build is located in the tree. -/
theorem located_of_at? (named : WellNamed fs.root) (built : buildTree fs hasher root = .ok tree)
    (hlookup : fs.lookup true root = .ok directory) (hat : directory.at? names = some inode) :
    ∃ texts node, names = texts.map utf8 ∧ Located fs hasher root tree texts inode node := by
  -- a path grows at its end, so the last name comes off first
  induction names using List.reverseRecOn generalizing inode with
  | nil =>
    obtain rfl : directory = inode := Option.some.inj hat
    obtain ⟨node, located⟩ := located_root named built hlookup
    exact ⟨[], node, rfl, located⟩
  | append_singleton names name ih =>
    rw [at?_append, Option.bind_eq_some_iff] at hat
    obtain ⟨parent, hparent, hentry⟩ := hat
    obtain ⟨inode, hchild, ⟨⟩⟩ := Option.bind_eq_some_iff.mp hentry
    obtain ⟨texts, node, rfl, located⟩ := ih hparent
    have hmem := mem_of_child? hchild
    cases parent with
    | directory mode entries =>
      obtain ⟨text, child, rfl, located⟩ := located.entry hmem
      exact ⟨texts ++ [text], child, by rw [List.map_append, List.map_singleton], located⟩
    | file mode content => cases hmem
    | symlink target => cases hmem
    | special mode => cases hmem

theorem Located.locate_eq {texts : List String} (h : Located fs hasher root tree texts inode node) :
    ∃ found, tree.locate ("/".intercalate texts) = some found ∧
      found.rename rootName = node.rename rootName := by
  obtain ⟨found, hfollow, hfound⟩ := h.follow_eq
  refine ⟨found, ?_, hfound⟩
  cases texts with
  | nil => exact hfollow
  | cons text texts => rw [locate_intercalate tree (List.cons_ne_nil _ _) h.entryNames, hfollow]

/-- A directory that a build passed builds on its own, to the node that the tree has at its path. -/
theorem buildTree_of_located {texts : List String} (isDirectory : inode.isDirectory)
    (h : Located fs hasher root tree texts inode node) :
    buildTree fs hasher (pathTo root (texts.map utf8)) = .ok (node.rename rootName) := by
  have noLink : ∀ target, inode ≠ .symlink target := by
    rintro target rfl
    cases isDirectory
  exact buildTree_eq_ok.mpr ⟨inode, node, h.stands.lookup_eq noLink, isDirectory, h.walked_eq, rfl⟩

/-- After a build, every directory beneath its root builds from the path that leads to it, and
what is made is the node at this path in the tree, renamed, with the same digest. -/
theorem buildTree_composes (named : WellNamed fs.root) (built : buildTree fs hasher root = .ok tree)
    (hlookup : fs.lookup true root = .ok directory) (hat : directory.at? names = some inode)
    (isDirectory : inode.isDirectory) :
    ∃ texts found, names = texts.map utf8 ∧
      tree.locate ("/".intercalate texts) = some found ∧
      buildTree fs hasher (pathTo root names) = .ok (found.rename ".") ∧
      rootHash fs hasher (pathTo root names) = .ok found.hash := by
  obtain ⟨texts, node, rfl, located⟩ := located_of_at? named built hlookup hat
  obtain ⟨found, hlocate, hfound⟩ := located.locate_eq
  have hbuild := buildTree_of_located isDirectory located
  rw [← hfound] at hbuild
  refine ⟨texts, found, rfl, hlocate, hbuild, ?_⟩
  rw [rootHash, hbuild, ok_map, Node.hash_rename]

/-- A directory behind a link, with a directory in a directory, and a link that leads back. -/
def nestedSystem : FileSystem where
  root := .directory 0o755
    [(utf8 "alias", .symlink (utf8 "r")),
      (utf8 "r", .directory 0o755
        [(utf8 "z", .file 0o644 (utf8 "text")),
          (utf8 "é", .directory 0o700
            [(utf8 "up", .symlink (utf8 "..")), (utf8 "d", .directory 0o700 [])])])]
  workingDirectory := []
  heedsModes := true

theorem wellNamed_nestedSystem : WellNamed nestedSystem.root := by
  have inner : WellNamed (.directory 0o700
      [(utf8 "up", .symlink (utf8 "..")), (utf8 "d", .directory 0o700 [])]) := by
    refine .directory _ _ (by decide) (by decide) ?_
    rw [List.forall_mem_cons, List.forall_mem_singleton]
    exact ⟨.symlink _, .directory _ _ (by decide) (by decide) (List.forall_mem_nil _)⟩
  refine .directory _ _ (by decide) (by decide) ?_
  rw [List.forall_mem_cons, List.forall_mem_singleton]
  refine ⟨.symlink _, .directory _ _ (by decide) (by decide) ?_⟩
  rw [List.forall_mem_cons, List.forall_mem_singleton]
  exact ⟨.file _ _, inner⟩

theorem nestedDirectory_composes :
    WellNamed nestedSystem.root ∧
      ∃ tree, buildTree nestedSystem .chunked (utf8 "alias") = .ok tree ∧
        ∃ texts found, [utf8 "é", utf8 "d"] = texts.map utf8 ∧
          tree.locate ("/".intercalate texts) = some found ∧
          buildTree nestedSystem .chunked (utf8 "alias/é/d") = .ok (found.rename ".") ∧
          rootHash nestedSystem .chunked (utf8 "alias/é/d") = .ok found.hash := by
  obtain ⟨tree, built⟩ : ∃ tree, buildTree nestedSystem .chunked (utf8 "alias") = .ok tree :=
    ⟨_, rfl⟩
  obtain ⟨directory, hlookup, hat⟩ : ∃ directory,
      nestedSystem.lookup true (utf8 "alias") = .ok directory ∧
        directory.at? [utf8 "é", utf8 "d"] = some (.directory 0o700 []) := ⟨_, rfl, rfl⟩
  have hpath : pathTo (utf8 "alias") [utf8 "é", utf8 "d"] = utf8 "alias/é/d" := by decide
  rw [← hpath]
  exact ⟨wellNamed_nestedSystem, tree, built,
    buildTree_composes wellNamed_nestedSystem built hlookup hat rfl⟩

end HashedTree.BuiltSubtrees
