import HashedTree.Proofs.DirectoryPortrait

/-!
# A built tree mirrors the directory that it was built from

Whatever the order in which directories list their entries, and wherever symbolic links point: a
tree that a build returns has a node at a path exactly if names lead there through real directories
alone, and the node shows what stands there. Its directories ascend by name and have the digests of
their entries. The only thing asked of the file system is that no directory holds two entries of one
name, and of the hasher that it is a function of the bytes.
-/
namespace HashedTree.BuiltTrees
open ByteBlocks Utf8Text DigestCombinators KeccakDigest NameOrder EntrySearch DirectoryPortrait

/-- What a node shows of something in a file system, beside its name. -/
def Depicts (digest : Bytes → Digest) (node : Node) : Inode → Prop
  | .file _ content =>
    node.kind = .file ∧ node.size? = some (UInt64.ofNat content.length) ∧ node.hash = digest content
  | .directory _ _ => node.kind = .directory
  | .symlink target =>
    node.kind = .link ∧ node.target?.map utf8 = some target ∧ node.hash = keccak256 target
  | .special _ => False

/-- A tree shows what stands in a directory, and nothing else. -/
structure Mirrors (digest : Bytes → Digest) (directory : Inode) (tree : Node) : Prop where
  rootName : tree.name = "."
  rootKind : tree.kind = .directory
  ascending : ∀ name hash entries, .directory name hash entries ∈ tree.preorder → Ascending entries
  hashed : ∀ name hash entries, .directory name hash entries ∈ tree.preorder →
    hash = directoryHash (entries.map Node.hash)
  found_iff : ∀ names : List String, names ≠ [] → (∀ name ∈ names, IsEntryName name) →
    ((∃ node, tree.locate ("/".intercalate names) = some node) ↔
      ∃ inode, directory.at? (names.map utf8) = some inode)
  depicts : ∀ (names : List String) (nonempty : names ≠ []), (∀ name ∈ names, IsEntryName name) →
    ∀ node inode, tree.locate ("/".intercalate names) = some node →
      directory.at? (names.map utf8) = some inode →
      node.name = names.getLast nonempty ∧ Depicts digest node inode

variable {digest : Bytes → Digest}

theorem depicts_of_portrait {name : String} {inode : Inode} {node : Node}
    (h : portrait digest name inode = some node) : Depicts digest node inode := by
  cases inode with
  | file mode content =>
    rw [portrait, Option.some.injEq] at h
    subst h
    exact ⟨rfl, rfl, rfl⟩
  | directory mode entries =>
    rw [portrait, Option.map_eq_some_iff] at h
    obtain ⟨nodes, -, rfl⟩ := h
    rfl
  | symlink target =>
    rw [portrait, Option.map_eq_some_iff] at h
    obtain ⟨text, htext, rfl⟩ := h
    obtain rfl := utf8_of_ofUtf8? htext
    exact ⟨rfl, rfl, rfl⟩
  | special mode => simp [portrait] at h

/-- The directories inside a portrait ascend by name and have the digests of their entries. -/
theorem directories_of_portrait {name : String} {inode : Inode} {node : Node}
    (distinct : DistinctNames inode) (h : portrait digest name inode = some node) :
    ∀ inner hash entries, .directory inner hash entries ∈ node.preorder →
      Ascending entries ∧ hash = directoryHash (entries.map Node.hash) := by
  induction inode using inode_induction generalizing name node with
  | file mode content =>
    rw [portrait, Option.some.injEq] at h
    simp [← h, Node.preorder]
  | directory mode entries ih =>
    rw [portrait, Option.map_eq_some_iff] at h
    obtain ⟨nodes, hnodes, rfl⟩ := h
    rw [portraits_eq_some_iff] at hnodes
    cases distinct with
    | directory mode entries distinct beneath =>
    intro inner hash found hmem
    rw [Node.ofEntries, Node.preorder, List.mem_cons, Node.mem_preorderAll] at hmem
    rcases hmem with heq | ⟨entry, hentry, hmem⟩
    · injection heq with _ hhash hfound
      subst hfound
      exact ⟨ascending_sortByName (nodup_names name_of_isPortrait hnodes distinct), hhash⟩
    · rw [mem_sortByName] at hentry
      obtain ⟨index, hindex, rfl⟩ := List.getElem_of_mem hentry
      obtain ⟨text, -, hportrait⟩ := hnodes.get (hnodes.length_eq.symm ▸ hindex) hindex
      exact ih _ (List.getElem_mem _) (beneath _ (List.getElem_mem _)) hportrait _ _ _ hmem
  | symlink target =>
    rw [portrait, Option.map_eq_some_iff] at h
    obtain ⟨text, -, rfl⟩ := h
    simp [Node.ofTarget, Node.preorder]
  | special mode => simp [portrait] at h

theorem mirrors_of_portrait {directory : Inode} {tree : Node} (distinct : DistinctNames directory)
    (isDirectory : directory.isDirectory) (h : portrait digest "." directory = some tree) :
    Mirrors digest directory tree where
  rootName := name_of_portrait h
  rootKind := by
    have hdepicts := depicts_of_portrait h
    cases directory with
    | directory mode entries => exact hdepicts
    | file mode content => cases isDirectory
    | symlink target => cases isDirectory
    | special mode => cases isDirectory
  ascending inner hash entries hmem :=
    (directories_of_portrait distinct h inner hash entries hmem).1
  hashed inner hash entries hmem :=
    (directories_of_portrait distinct h inner hash entries hmem).2
  found_iff names nonempty entryNames := by
    rw [locate_intercalate tree nonempty entryNames, follow_portrait distinct h nonempty entryNames]
    constructor
    · rintro ⟨node, hnode⟩
      obtain ⟨inode, hinode, -⟩ := Option.bind_eq_some_iff.mp hnode
      exact ⟨inode, hinode⟩
    · rintro ⟨inode, hinode⟩
      rw [hinode, Option.bind_some]
      exact portrait_at? h nonempty hinode
  depicts names nonempty entryNames node inode hnode hinode := by
    rw [locate_intercalate tree nonempty entryNames, follow_portrait distinct h nonempty entryNames,
      hinode, Option.bind_some] at hnode
    exact ⟨name_of_portrait hnode, depicts_of_portrait hnode⟩

/-- A build that succeeds returns a tree that mirrors the directory at its path. -/
theorem buildTree_mirrors {fs : FileSystem} {hasher : ContentHasher} {path : Bytes} {tree : Node}
    (distinct : DistinctNames fs.root) (computes : Computes hasher digest)
    (built : buildTree fs hasher path = .ok tree) :
    ∃ directory, fs.lookup true path = .ok directory ∧ directory.isDirectory ∧
      Mirrors digest directory tree := by
  obtain ⟨directory, hlookup, isDirectory, hportrait⟩ := portrait_of_buildTree computes built
  exact ⟨directory, hlookup, isDirectory,
    mirrors_of_portrait (distinct.lookup hlookup) isDirectory hportrait⟩

/-- A directory behind a link, listed out of order, with a link to itself, a link to nothing and a
nested directory. -/
def linkedSystem : FileSystem where
  root := .directory 0o755
    [(utf8 "alias", .symlink (utf8 "r/")),
      (utf8 "r", .directory 0o755
        [(utf8 "loop", .symlink (utf8 "loop")),
          (utf8 "d", .directory 0o700 [(utf8 "g", .file 0o600 [])]),
          (utf8 "gone", .symlink (utf8 "nowhere")),
          (utf8 "Z", .file 0o644 (utf8 "text"))])]
  workingDirectory := []
  heedsModes := true

def linkedTree : Node :=
  .ofEntries "." [.ofTarget "loop" "loop",
    .ofEntries "d" [.file "g" (ContentDigest.contentDigest []) 0], .ofTarget "gone" "nowhere",
    .file "Z" (ContentDigest.contentDigest (utf8 "text")) 4]

theorem distinctNames_linkedSystem : DistinctNames linkedSystem.root := by
  have inner : DistinctNames (.directory 0o700 [(utf8 "g", .file 0o600 [])]) :=
    .directory _ _ (by decide) (by simpa using .file _ _)
  refine .directory _ _ (by decide) ?_
  simp only [List.mem_cons, List.not_mem_nil, or_false, forall_eq_or_imp, forall_eq]
  refine ⟨.symlink _, .directory _ _ (by decide) ?_⟩
  simp only [List.mem_cons, List.not_mem_nil, or_false, forall_eq_or_imp, forall_eq]
  exact ⟨.symlink _, inner, .symlink _, .file _ _⟩

theorem linkedTree_mirrors :
    DistinctNames linkedSystem.root ∧ Computes .chunked ContentDigest.contentDigest ∧
      buildTree linkedSystem .chunked (utf8 "alias") = .ok linkedTree ∧
      ∃ directory, linkedSystem.lookup true (utf8 "alias") = .ok directory ∧
        directory.isDirectory ∧ Mirrors ContentDigest.contentDigest directory linkedTree :=
  have built : buildTree linkedSystem .chunked (utf8 "alias") = .ok linkedTree := rfl
  ⟨distinctNames_linkedSystem, chunked_computes, built,
    buildTree_mirrors distinctNames_linkedSystem chunked_computes built⟩

end HashedTree.BuiltTrees
