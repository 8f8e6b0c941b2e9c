import HashedTree.Proofs.ReadableTrees
import HashedTree.TreeCommands

/-!
# The three commands speak of one tree

Whatever stands in the file system, printing a tree, its digest and one of its entries fail alike if
no tree can be built. Otherwise they are about one tree: the printed document is read as this tree, the
printed digest is its own, and the printed entry is what the path leads to in it.
-/
namespace HashedTree.CommandAgreement
open ByteBlocks Utf8Text EntrySearch WellFormedTrees TreeDocuments ObtainableTrees BuiltTrees Outcomes
open TreeCommand (layout)

variable {fs : FileSystem} {settings : OutputSettings} {path : Bytes} {entry : String}
  {format : Option String} {pretty : Bool}

section Beneath
variable {tree node found : Node}

theorem beneath_trans {upper lower : Nat} (h : Beneath tree upper node)
    (hfound : Beneath node lower found) : Beneath tree (upper + lower) found := by
  induction h with
  | root node => exact (Nat.zero_add lower).symm ▸ hfound
  | @entry name hash entries entry node ancestors hmem h ih =>
    rw [Nat.succ_add]
    exact .entry hmem (ih hfound)

theorem beneath_of_mem_entries (h : found ∈ node.entries) : Beneath node 1 found := by
  cases node with
  | directory name hash entries => exact .entry h (.root found)
  | file name hash size => cases h
  | link name hash target => cases h

/-- What is found at a path stands in the tree. -/
theorem beneath_of_locate {path : String} (h : tree.locate path = some found) :
    ∃ ancestors, Beneath tree ancestors found := by
  refine of_locate (P := fun node => ∃ ancestors, Beneath tree ancestors node) ?_ ⟨0, .root tree⟩ h
  rintro node entry hentry ⟨ancestors, hnode⟩
  exact ⟨ancestors + 1, beneath_trans hnode (beneath_of_mem_entries hentry)⟩

end Beneath

section Execution

/-- A command prints something about the tree at its path, or fails as building it does. -/
theorem execute_eq (command : TreeCommand) :
    command.execute fs settings =
      ((buildTree fs .chunked command.path).mapError .build).bind (command.output settings) := by
  rw [TreeCommand.execute, TreeCommand.performAmid, buildTree, TreeBuilding.build]
  cases (TreeBuilding.buildAmid .none .none fs .chunked command.path).result with
  | error e => rfl
  | ok tree => rfl

theorem execute_of_not_built {e : BuildError} (command : TreeCommand)
    (h : buildTree fs .chunked command.path = .error e) :
    command.execute fs settings = .error (.build e) := by
  rw [execute_eq, h]
  rfl

theorem execute_of_built {tree : Node} (command : TreeCommand)
    (h : buildTree fs .chunked command.path = .ok tree) :
    command.execute fs settings = command.output settings tree := by
  rw [execute_eq, h]
  rfl

theorem output_lookup_of_none {tree : Node} (h : tree.locate entry = none) :
    (TreeCommand.lookup path entry format).output settings tree = .error (.entryNotFound entry) := by
  rw [TreeCommand.output, h]

theorem output_lookup_of_some {tree node : Node} (h : tree.locate entry = some node) :
    (TreeCommand.lookup path entry (some "json")).output settings tree =
      .ok (NodeDocument.text (layout settings.pretty) node) := by
  rw [TreeCommand.output, h]
  rfl

end Execution

/-- The commands fail alike, or they print one tree, its digest and its entry. -/
theorem commands_agree (fs : FileSystem) (settings : OutputSettings) (path : Bytes)
    (entry : String) (pretty : Bool) :
    (∃ e, (TreeCommand.build path (some "json") pretty).execute fs settings = .error (.build e) ∧
      (TreeCommand.hash path).execute fs settings = .error (.build e) ∧
      ∀ format, (TreeCommand.lookup path entry format).execute fs settings = .error (.build e)) ∨
    ∃ tree printed, buildTree fs .chunked path = .ok tree ∧
      (TreeCommand.build path (some "json") pretty).execute fs settings = .ok printed ∧
      (TreeCommand.hash path).execute fs settings = .ok tree.hash.toHex ∧
      (tree.locate entry = none → ∀ format,
        (TreeCommand.lookup path entry format).execute fs settings = .error (.entryNotFound entry)) ∧
      ((∀ ancestors node, Beneath tree ancestors node → ancestors ≤ 63) →
        NodeDocument.parse printed = .ok tree ∧
        ∀ node, tree.locate entry = some node → ∃ found,
          (TreeCommand.lookup path entry (some "json")).execute fs settings = .ok found ∧
            NodeDocument.parse found = .ok node) := by
  cases hbuilt : buildTree fs .chunked path with
  | error e =>
    exact .inl ⟨e, execute_of_not_built (.build path (some "json") pretty) hbuilt,
      execute_of_not_built (.hash path) hbuilt,
      fun format => execute_of_not_built (.lookup path entry format) hbuilt⟩
  | ok tree =>
    have wellFormed : WellFormed tree := wellFormed_of_buildTree hbuilt
    refine .inr ⟨tree, _, rfl, execute_of_built (.build path (some "json") pretty) hbuilt,
      execute_of_built (.hash path) hbuilt, ?_, ?_⟩
    · intro habsent format
      rw [execute_of_built (.lookup path entry format) hbuilt, output_lookup_of_none habsent]
    · intro shallow
      refine ⟨(parse_text wellFormed.constructed _).1 shallow, fun node hnode => ?_⟩
      obtain ⟨depth, hbeneath⟩ := beneath_of_locate hnode
      have inner : WellFormed node :=
        of_locate (fun _ _ hentry h => h.of_mem_entries hentry) wellFormed hnode
      rw [execute_of_built (.lookup path entry (some "json")) hbuilt, output_lookup_of_some hnode]
      refine ⟨_, rfl, (parse_text inner.constructed _).1 fun ancestors below hbelow => ?_⟩
      have := shallow (depth + ancestors) below (beneath_trans hbeneath hbelow)
      omega

theorem linkedTree_shallow (ancestors : Nat) (node : Node)
    (h : Beneath linkedTree ancestors node) : ancestors ≤ 63 :=
  (nesting_le_iff linkedTree 63).mp (by decide +kernel) ancestors node h

theorem linkedSystem_commands_agree :
    ∃ printed found,
      (TreeCommand.build (utf8 "alias") (some "json") false).execute linkedSystem ⟨"text", true⟩ =
        .ok printed ∧ NodeDocument.parse printed = .ok linkedTree ∧
      (TreeCommand.lookup (utf8 "alias") "d/.//g" (some "json")).execute linkedSystem
        ⟨"text", true⟩ = .ok found ∧
      NodeDocument.parse found = .ok (.file "g" (ContentDigest.contentDigest []) 0) ∧
      (TreeCommand.lookup (utf8 "alias") "d/../Z" none).execute linkedSystem ⟨"text", true⟩ =
        .error (.entryNotFound "d/../Z") := by
  have built : buildTree linkedSystem .chunked (utf8 "alias") = .ok linkedTree := rfl
  have present : linkedTree.locate "d/.//g" =
      some (.file "g" (ContentDigest.contentDigest []) 0) := rfl
  have absent : linkedTree.locate "d/../Z" = none := rfl
  have agree (entry : String) := (commands_agree linkedSystem ⟨"text", true⟩ (utf8 "alias") entry
    false).resolve_left fun ⟨e, herror, _⟩ => by
      rw [execute_of_built (.build (utf8 "alias") (some "json") false) built] at herror
      cases herror
  obtain ⟨tree, printed, hbuilt, hprinted, -, -, hread⟩ := agree "d/.//g"
  obtain rfl : linkedTree = tree := Except.ok.inj (built.symm.trans hbuilt)
  obtain ⟨hparse, hfound⟩ := hread linkedTree_shallow
  obtain ⟨found, hlookup, hnode⟩ := hfound _ present
  obtain ⟨other, -, hother, -, -, hnone, -⟩ := agree "d/../Z"
  obtain rfl : linkedTree = other := Except.ok.inj (built.symm.trans hother)
  exact ⟨printed, found, hprinted, hparse, hlookup, hnode, hnone absent none⟩

end HashedTree.CommandAgreement
