import HashedTree.Proofs.BuiltTrees
import HashedTree.Proofs.TreeDocuments

/-!
# Every tree that can be obtained is well formed

Trees come from the constructors, from documents and from file systems, and are taken apart by
lookup and put together again. However this is done, and whatever digests and orders a document
claims, directories inside a tree keep their entries in order and have the digest of their entries,
and links have the digest of their target.
-/
namespace HashedTree.ObtainableTrees
open ByteBlocks Utf8Text TreeBuilding DigestCombinators KeccakDigest EntrySearch
open WellFormedTrees DirectoryPortrait BuiltTrees BuildSteps Outcomes

/-- Obtained by making, reading, building and looking up, in any combination. -/
inductive Obtained : Node → Prop where
  | file (name : String) (hash : Digest) (size : UInt64) : Obtained (.file name hash size)
  | directory (name : String) {entries : List Node} (obtained : ∀ entry ∈ entries, Obtained entry) :
      Obtained (.ofEntries name entries)
  | link (name target : String) : Obtained (.ofTarget name target)
  | parsed {text : String} {tree : Node} (parsed : NodeDocument.parse text = .ok tree) :
      Obtained tree
  | built {fs : FileSystem} {hasher : ContentHasher} {path : Bytes} {tree : Node}
      (built : buildTree fs hasher path = .ok tree) : Obtained tree
  | entry {tree entry : Node} (obtained : Obtained tree) (listed : entry ∈ tree.entries) :
      Obtained entry
  | found {tree found : Node} {name : String} (obtained : Obtained tree)
      (search : tree.search name = some found) : Obtained found
  | located {tree found : Node} {path : String} (obtained : Obtained tree)
      (locate : tree.locate path = some found) : Obtained found

theorem wellFormed_of_parse {text : String} {tree : Node}
    (h : NodeDocument.parse text = .ok tree) : WellFormed tree := by
  simp only [NodeDocument.parse, bind_eq_ok, map_eq_ok] at h
  obtain ⟨document, -, node, -, rfl⟩ := h
  exact wellFormed_rebuild node

section Building
variable {fs : FileSystem} {hasher : ContentHasher}

/-- A node that was built is well formed, whatever was found and however its files are hashed. -/
theorem wellFormed_of_walkNode {path : Bytes} {name : Option Bytes} {inode : Inode} {node : Node}
    (h : (walkNode fs hasher path name inode).result = .ok node) : WellFormed node := by
  induction inode using inode_induction generalizing path name node with
  | file mode content =>
    obtain ⟨text, digest, -, -, rfl⟩ := walkNode_file_eq_ok.mp h
    exact .file _ _ _
  | directory mode entries ih =>
    obtain ⟨text, nodes, -, -, hnodes, rfl⟩ := walkNode_directory_eq_ok.mp h
    refine wellFormed_ofEntries text fun node hnode => ?_
    obtain ⟨entry, hentry, -, hwalk⟩ := exists_right_of_mem (walkEntries_eq_ok.mp hnodes).flip hnode
    exact ih entry hentry hwalk
  | symlink target =>
    obtain ⟨text, link, -, -, rfl⟩ := walkNode_symlink_eq_ok.mp h
    exact .link _ _
  | special mode => cases h

theorem wellFormed_of_buildTree {path : Bytes} {tree : Node}
    (h : buildTree fs hasher path = .ok tree) : WellFormed tree := by
  obtain ⟨directory, node, -, -, hnode, rfl⟩ := buildTree_eq_ok.mp h
  exact (wellFormed_of_walkNode hnode).rename rootName

end Building

theorem Obtained.wellFormed {tree : Node} (h : Obtained tree) : WellFormed tree := by
  induction h with
  | file name hash size => exact .file name hash size
  | directory name _ ih => exact wellFormed_ofEntries name ih
  | link name target => exact .link name target
  | parsed hparsed => exact wellFormed_of_parse hparsed
  | built hbuilt => exact wellFormed_of_buildTree hbuilt
  | entry _ hlisted ih => exact ih.of_mem_entries hlisted
  | found _ hsearch ih => exact ih.of_mem_entries (mem_entries_of_search hsearch)
  | located _ hlocate ih => exact of_locate (fun _ _ hentry h => h.of_mem_entries hentry) ih hlocate

/-- Inside a tree that was obtained, whatever its origin, the entries of a directory stand in the
order of their names and give it its digest, and the target of a link gives it its digest. -/
theorem orders_and_digests_of_obtained {tree : Node} (h : Obtained tree) :
    (∀ name hash entries, .directory name hash entries ∈ tree.preorder →
      entries.Pairwise (fun a b => utf8 a.name ≤ utf8 b.name) ∧
        hash = directoryHash (entries.map Node.hash)) ∧
    ∀ name hash target, .link name hash target ∈ tree.preorder → hash = keccak256 (utf8 target) := by
  constructor
  · intro name hash entries hmem
    cases wellFormed_of_mem_preorder h.wellFormed hmem with
    | directory _ _ ordered beneath => exact ⟨ordered, rfl⟩
  · intro name hash target hmem
    cases wellFormed_of_mem_preorder h.wellFormed hmem with
    | link => rfl

/-- A directory that claims a digest it does not have, with entries out of order. -/
def forgedNode : Node :=
  .directory "forged" (.ofByte 1) [.link "b" .zero "target", .file "a" (.ofByte 2) 5]

/-- A tree that was built and one that was read from a forged document, in one directory. -/
def gatheredTree : Node := .ofEntries "gathered" [linkedTree, forgedNode.rebuild]

theorem parse_forgedNode :
    NodeDocument.parse (NodeDocument.text .compact forgedNode) = .ok forgedNode.rebuild := by
  rw [TreeDocuments.parse_text_eq, if_pos (by decide)]

theorem obtained_gatheredTree : Obtained gatheredTree := by
  have hbuilt : buildTree linkedSystem .chunked (utf8 "alias") = .ok linkedTree := rfl
  refine .directory "gathered" ?_
  rw [List.forall_mem_cons, List.forall_mem_singleton]
  exact ⟨.built hbuilt, .parsed parse_forgedNode⟩

theorem gatheredTree_orders_and_digests :
    Obtained gatheredTree ∧
      (∀ name hash entries, .directory name hash entries ∈ gatheredTree.preorder →
        entries.Pairwise (fun a b => utf8 a.name ≤ utf8 b.name) ∧
          hash = directoryHash (entries.map Node.hash)) ∧
      ∀ name hash target, .link name hash target ∈ gatheredTree.preorder →
        hash = keccak256 (utf8 target) :=
  ⟨obtained_gatheredTree, orders_and_digests_of_obtained obtained_gatheredTree⟩

end HashedTree.ObtainableTrees
