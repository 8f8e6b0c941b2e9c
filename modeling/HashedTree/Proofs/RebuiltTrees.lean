import HashedTree.Proofs.SortedDirectories

/-!
# What rebuilding keeps and what it makes anew

Rebuilding takes any node to a well-formed one with the same nodes in the same places: only the
entries of a directory may change their order, and only directories and links may change their
digest. There is one such tree. So rebuilding leaves exactly the well-formed trees as they are, and
rebuilding a second time changes nothing.
-/
namespace HashedTree.RebuiltTrees
open Utf8Text KeccakDigest DigestCombinators NameOrder WellFormedTrees SortedDirectories

/-- The second tree has the nodes of the first one in the same places: the same files and links and,
in each directory, the same entries, where those of one name keep their order. The order of the
entries otherwise and the digests of directories and links are free. -/
inductive Rearranged : Node → Node → Prop where
  | file (name : String) (hash : Digest) (size : UInt64) :
      Rearranged (.file name hash size) (.file name hash size)
  | directory (name : String) (hash hash' : Digest) {entries matched entries' : List Node}
      (each : List.Forall₂ Rearranged entries matched) (perm : entries'.Perm matched)
      (steady : ∀ entryName, named entryName entries' = named entryName matched) :
      Rearranged (.directory name hash entries) (.directory name hash' entries')
  | link (name : String) (hash hash' : Digest) (target : String) :
      Rearranged (.link name hash target) (.link name hash' target)

theorem rearranged_rebuild (node : Node) : Rearranged node node.rebuild := by
  induction node using node_induction with
  | file name hash size => exact .file name hash size
  | directory name hash entries ih =>
    have each : List.Forall₂ Rearranged entries (entries.map Node.rebuild) := by
      rw [List.forall₂_map_right_iff, List.forall₂_same]
      exact ih
    rw [Node.rebuild, rebuildAll_eq_map]
    exact .directory name hash _ each (sortByName_perm _) fun entryName =>
      named_sortByName entryName _
  | link name hash target => exact .link name hash _ target

private theorem eq_map_of_each {f : Node → Node} {entries matched : List Node}
    (each : List.Forall₂ Rearranged entries matched)
    (made : ∀ entry ∈ entries, ∀ other ∈ matched, Rearranged entry other → other = f entry) :
    matched = entries.map f := by
  induction each with
  | nil => rfl
  | @cons entry other entries matched related _ ih =>
    have first : other = f entry := made _ List.mem_cons_self _ List.mem_cons_self related
    have rest : matched = entries.map f := ih fun entry hentry other hother =>
      made entry (List.mem_cons_of_mem _ hentry) other (List.mem_cons_of_mem _ hother)
    rw [first, rest, List.map_cons]

/-- Nodes in the same places and a well-formed tree: this leaves nothing to choose. -/
theorem eq_rebuild_of_rearranged {node tree : Node} (h : Rearranged node tree)
    (wellFormed : WellFormed tree) : tree = node.rebuild := by
  induction node using node_induction generalizing tree with
  | file name hash size =>
    cases h
    rfl
  | directory name hash entries ih =>
    cases h with
    | @directory _ _ _ _ matched entries' each perm steady =>
      cases wellFormed with
      | directory _ _ ordered beneath =>
        have rebuilt : matched = entries.map Node.rebuild := by
          apply eq_map_of_each each
          intro entry hentry other hother related
          exact ih entry hentry related (beneath other (perm.mem_iff.mpr hother))
        have sorted : entries' = Node.sortByName matched := by
          apply eq_of_named_eq ordered (ordered_sortByName matched)
          intro entryName
          rw [steady, named_sortByName]
        rw [Node.rebuild, rebuildAll_eq_map, Node.ofEntries, ← rebuilt, ← sorted]
  | link name hash target =>
    cases h
    cases wellFormed
    rfl

theorem eq_rebuild_iff {node tree : Node} :
    tree = node.rebuild ↔ WellFormed tree ∧ Rearranged node tree := by
  constructor
  · intro h
    subst h
    exact ⟨wellFormed_rebuild node, rearranged_rebuild node⟩
  · intro ⟨wellFormed, rearranged⟩
    exact eq_rebuild_of_rearranged rearranged wellFormed

theorem rebuild_eq_self_iff {node : Node} : node.rebuild = node ↔ WellFormed node := by
  constructor
  · intro h
    rw [← h]
    exact wellFormed_rebuild node
  · exact rebuild_of_wellFormed

/-- The entries of each directory in a tree stand in the order of their names and give it its
digest, and the target of each link gives it its digest. -/
def OrdersAndDigests (tree : Node) : Prop :=
  (∀ name hash entries, .directory name hash entries ∈ tree.preorder →
    entries.Pairwise (fun a b => utf8 a.name ≤ utf8 b.name) ∧
      hash = directoryHash (entries.map Node.hash)) ∧
  ∀ name hash target, .link name hash target ∈ tree.preorder → hash = keccak256 (utf8 target)

theorem OrdersAndDigests.entry {tree entry : Node} (h : OrdersAndDigests tree)
    (hentry : entry ∈ tree.entries) : OrdersAndDigests entry := by
  have subset := Node.preorder_subset hentry
  exact ⟨fun name hash entries hmem => h.1 name hash entries (subset hmem),
    fun name hash target hmem => h.2 name hash target (subset hmem)⟩

theorem wellFormed_of_ordersAndDigests {tree : Node} (h : OrdersAndDigests tree) :
    WellFormed tree := by
  induction tree using node_induction with
  | file name hash size => exact .file name hash size
  | directory name hash entries ih =>
    obtain ⟨ordered, rfl⟩ := h.1 name hash entries (Node.self_mem_preorder _)
    exact .directory name entries ordered fun entry hentry => ih entry hentry (h.entry hentry)
  | link name hash target =>
    obtain rfl := h.2 name hash target (Node.self_mem_preorder _)
    exact .link name target

theorem wellFormed_iff {tree : Node} : WellFormed tree ↔ OrdersAndDigests tree := by
  constructor
  · intro h
    constructor
    · intro name hash entries hmem
      cases wellFormed_of_mem_preorder h hmem with
      | directory _ _ ordered _ => exact ⟨ordered, rfl⟩
    · intro name hash target hmem
      exact (wellFormed_of_mem_preorder h hmem).hash_link
  · exact wellFormed_of_ordersAndDigests

/-- Rebuilding is a projection onto the trees whose orders and digests are right: a second time it
changes nothing, it changes nothing exactly where they are right already, and it gives the only such
tree that has the nodes of the given one in the same places. -/
theorem rebuild_projects (node : Node) :
    node.rebuild.rebuild = node.rebuild ∧
      (node.rebuild = node ↔ OrdersAndDigests node) ∧
      Rearranged node node.rebuild ∧
      ∀ tree, tree = node.rebuild ↔ OrdersAndDigests tree ∧ Rearranged node tree := by
  have again : node.rebuild.rebuild = node.rebuild :=
    rebuild_of_wellFormed (wellFormed_rebuild node)
  refine ⟨again, rebuild_eq_self_iff.trans wellFormed_iff, rearranged_rebuild node, ?_⟩
  intro tree
  rw [eq_rebuild_iff, wellFormed_iff]

end HashedTree.RebuiltTrees
