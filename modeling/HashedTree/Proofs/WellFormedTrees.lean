import HashedTree.Proofs.NameOrder

/-!
# Trees that the constructors make

A tree is well formed if each of its directories has its entries in the order of their names and the
digest of their digests, and each of its links the digest of its target. These are the trees that
the three constructors make, and rebuilding leaves them as they are.
-/
namespace HashedTree.WellFormedTrees
open DigestCombinators NameOrder

/-- Induction over a node and everything beneath it. -/
theorem node_induction {P : Node → Prop} (file : ∀ name hash size, P (.file name hash size))
    (directory : ∀ name hash entries, (∀ entry ∈ entries, P entry) →
      P (.directory name hash entries))
    (link : ∀ name hash target, P (.link name hash target)) : ∀ node, P node := by
  intro node
  refine @Node.rec P (fun entries => ∀ entry ∈ entries, P entry) file directory link ?_ ?_ node
  · simp
  · intro entry rest hentry hrest other hother
    rcases List.mem_cons.mp hother with rfl | hother
    · exact hentry
    · exact hrest other hother

/-- Made by the constructors, from any names, digests of files, sizes and targets. -/
inductive Constructed : Node → Prop where
  | file (name : String) (hash : Digest) (size : UInt64) : Constructed (.file name hash size)
  | directory (name : String) (entries : List Node)
      (beneath : ∀ entry ∈ entries, Constructed entry) : Constructed (.ofEntries name entries)
  | link (name target : String) : Constructed (.ofTarget name target)

/-- Orders and digests are right throughout. -/
inductive WellFormed : Node → Prop where
  | file (name : String) (hash : Digest) (size : UInt64) : WellFormed (.file name hash size)
  | directory (name : String) (entries : List Node) (ordered : Ordered entries)
      (beneath : ∀ entry ∈ entries, WellFormed entry) :
      WellFormed (.directory name (directoryHash (entries.map Node.hash)) entries)
  | link (name target : String) : WellFormed (.link name (linkHash target) target)

theorem wellFormed_ofEntries (name : String) {entries : List Node}
    (beneath : ∀ entry ∈ entries, WellFormed entry) : WellFormed (.ofEntries name entries) :=
  .directory name _ (ordered_sortByName entries) fun entry hentry =>
    beneath entry (mem_sortByName.mp hentry)

/-- Directories made of entries that are in order already keep them as they are. -/
theorem ofEntries_of_ordered (name : String) {entries : List Node} (ordered : Ordered entries) :
    Node.ofEntries name entries =
      .directory name (directoryHash (entries.map Node.hash)) entries := by
  rw [Node.ofEntries, sortByName_of_ordered ordered]

/-- A directory is made of entries of distinct names in any order. -/
theorem ofEntries_of_perm {entries listed : List Node} (name : String)
    (distinct : (entries.map Node.name).Nodup) (perm : listed.Perm entries) :
    Node.ofEntries name listed = .ofEntries name entries := by
  have distinctListed : (listed.map Node.name).Nodup := (perm.map Node.name).nodup_iff.mpr distinct
  rw [Node.ofEntries, sortByName_eq_of_mem_iff distinctListed distinct fun _ => perm.mem_iff,
    Node.ofEntries]

theorem Constructed.wellFormed {node : Node} (h : Constructed node) : WellFormed node := by
  induction h with
  | file name hash size => exact .file name hash size
  | directory name entries _ ih => exact wellFormed_ofEntries name ih
  | link name target => exact .link name target

/-- A well-formed tree is one that the constructors make. -/
theorem WellFormed.constructed {node : Node} (h : WellFormed node) : Constructed node := by
  induction h with
  | file name hash size => exact .file name hash size
  | directory name entries ordered _ ih =>
    rw [← ofEntries_of_ordered name ordered]
    exact .directory name entries ih
  | link name target => exact .link name target

theorem rebuildAll_eq_map (nodes : List Node) : Node.rebuildAll nodes = nodes.map Node.rebuild := by
  induction nodes with
  | nil => rfl
  | cons node rest ih => rw [Node.rebuildAll, ih, List.map_cons]

/-- Rebuilding a well-formed tree changes nothing. -/
theorem rebuild_of_wellFormed {node : Node} (h : WellFormed node) : node.rebuild = node := by
  induction h with
  | file name hash size => rfl
  | directory name entries ordered _ ih =>
    have hentries : entries.map Node.rebuild = entries :=
      (List.map_congr_left ih).trans (List.map_id' entries)
    rw [Node.rebuild, rebuildAll_eq_map, hentries, ofEntries_of_ordered name ordered]
  | link name target => rfl

/-- Whatever a node claims, the one rebuilt from it is well formed. -/
theorem wellFormed_rebuild (node : Node) : WellFormed node.rebuild := by
  induction node using node_induction with
  | file name hash size => exact .file name hash size
  | directory name hash entries ih =>
    rw [Node.rebuild, rebuildAll_eq_map]
    exact wellFormed_ofEntries name (List.forall_mem_map.mpr ih)
  | link name hash target => exact .link name target

theorem WellFormed.rename {node : Node} (h : WellFormed node) (name : String) :
    WellFormed (node.rename name) := by
  cases h with
  | file _ hash size => exact .file name hash size
  | directory _ entries ordered beneath => exact .directory name entries ordered beneath
  | link _ target => exact .link name target

theorem WellFormed.of_mem_entries {node entry : Node} (h : WellFormed node)
    (hentry : entry ∈ node.entries) : WellFormed entry := by
  cases h with
  | file name hash size => cases hentry
  | directory name entries ordered beneath => exact beneath entry hentry
  | link name target => cases hentry

theorem WellFormed.hash_link {name target : String} {hash : Digest}
    (h : WellFormed (.link name hash target)) : hash = linkHash target := by
  cases h
  rfl

theorem wellFormed_of_mem_preorder {tree node : Node} (h : WellFormed tree)
    (hnode : node ∈ tree.preorder) : WellFormed node := by
  induction h with
  | file name hash size => exact List.mem_singleton.mp hnode ▸ .file name hash size
  | link name target => exact List.mem_singleton.mp hnode ▸ .link name target
  | directory name entries ordered beneath ih =>
    rw [Node.preorder, List.mem_cons, Node.mem_preorderAll] at hnode
    rcases hnode with rfl | ⟨entry, hentry, hnode⟩
    · exact .directory name entries ordered beneath
    · exact ih entry hentry hnode

end HashedTree.WellFormedTrees
