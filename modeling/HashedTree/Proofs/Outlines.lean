import HashedTree.Proofs.DirectoryPortrait
import HashedTree.Proofs.WellFormedTrees

/-!
# What is left of a tree without its names

An outline has the kinds, the link targets and something of each content, with the children of a
directory in the order of their names. The digest of a tree is computed bottom-up from its outline:
it is the same for all trees of one outline, whatever the names.
-/
namespace HashedTree.Outlines
open ByteBlocks Utf8Text KeccakDigest DigestCombinators NameOrder DirectoryPortrait WellFormedTrees

variable {α β γ : Type}

/-- A tree without names. -/
inductive Outline (α : Type) where
  | file (content : α)
  | directory (children : List (Outline α))
  | link (target : Bytes)
  | special

mutual
/-- What is computed from something in a file system bottom-up: a directory's value comes from the
values of its entries in the order of their names. -/
def bottomUp (file link : Bytes → β) (special : β) (directory : List β → β) : Inode → β
  | .file _ content => file content
  | .directory _ entries =>
    directory ((sortByKey (bottomUpEntries file link special directory entries)).map Prod.snd)
  | .symlink target => link target
  | .special _ => special

def bottomUpEntries (file link : Bytes → β) (special : β) (directory : List β → β) :
    List (Bytes × Inode) → List (Bytes × β)
  | [] => []
  | (name, inode) :: rest =>
    (name, bottomUp file link special directory inode) ::
      bottomUpEntries file link special directory rest
end

/-- The outline of something in a file system, with what `f` keeps of contents. -/
def outline (f : Bytes → α) : Inode → Outline α :=
  bottomUp (fun content => .file (f content)) .link .special .directory

/-- The entries of a listing in the order of their names, without the names. -/
def inNameOrder (entries : List (Bytes × Inode)) : List Inode := (sortByKey entries).map Prod.snd

theorem mem_inNameOrder {entries : List (Bytes × Inode)} {inode : Inode} :
    inode ∈ inNameOrder entries ↔ ∃ entry ∈ entries, entry.2 = inode := by
  simp [inNameOrder, sortByKey, List.mem_insertionSort]

private theorem bottomUpEntries_eq_map (file link : Bytes → β) (special : β)
    (directory : List β → β) (entries : List (Bytes × Inode)) :
    bottomUpEntries file link special directory entries =
      entries.map (Prod.map id (bottomUp file link special directory)) := by
  induction entries with
  | nil => rfl
  | cons entry rest ih =>
    obtain ⟨name, inode⟩ := entry
    rw [bottomUpEntries, ih]
    rfl

theorem bottomUp_directory (file link : Bytes → β) (special : β) (directory : List β → β)
    (mode : Nat) (entries : List (Bytes × Inode)) :
    bottomUp file link special directory (.directory mode entries) =
      directory ((inNameOrder entries).map (bottomUp file link special directory)) := by
  rw [bottomUp, bottomUpEntries_eq_map, ← map_sortByKey, inNameOrder, List.map_map, List.map_map]
  rfl

theorem outline_directory (f : Bytes → α) (mode : Nat) (entries : List (Bytes × Inode)) :
    outline f (.directory mode entries) = .directory ((inNameOrder entries).map (outline f)) :=
  bottomUp_directory _ _ _ _ mode entries

/-- A map that respects every step takes one bottom-up value to another. -/
theorem map_bottomUp (g : β → γ) {file link : Bytes → β} {special : β} {directory : List β → β}
    {file' link' : Bytes → γ} {special' : γ} {directory' : List γ → γ}
    (hfile : ∀ content, g (file content) = file' content)
    (hlink : ∀ target, g (link target) = link' target) (hspecial : g special = special')
    (hdirectory : ∀ values, g (directory values) = directory' (values.map g)) (inode : Inode) :
    g (bottomUp file link special directory inode) =
      bottomUp file' link' special' directory' inode := by
  induction inode using inode_induction with
  | file mode content => rw [bottomUp, bottomUp, hfile]
  | directory mode entries ih =>
    rw [bottomUp_directory, bottomUp_directory, hdirectory, List.map_map]
    refine congrArg directory' (List.map_congr_left fun child hchild => ?_)
    obtain ⟨entry, hentry, rfl⟩ := mem_inNameOrder.mp hchild
    exact ih entry hentry
  | symlink target => rw [bottomUp, bottomUp, hlink]
  | special mode => rw [bottomUp, bottomUp, hspecial]

mutual
/-- What is computed bottom-up from an outline. -/
def Outline.value (file : α → β) (link : Bytes → β) (special : β) (directory : List β → β) :
    Outline α → β
  | .file content => file content
  | .directory children => directory (Outline.values file link special directory children)
  | .link target => link target
  | .special => special

def Outline.values (file : α → β) (link : Bytes → β) (special : β) (directory : List β → β) :
    List (Outline α) → List β
  | [] => []
  | child :: rest =>
    child.value file link special directory :: Outline.values file link special directory rest
end

private theorem values_eq_map (file : α → β) (link : Bytes → β) (special : β)
    (directory : List β → β) (children : List (Outline α)) :
    Outline.values file link special directory children =
      children.map (Outline.value file link special directory) := by
  induction children with
  | nil => rfl
  | cons child rest ih => rw [Outline.values, ih, List.map_cons]

/-- Whatever is computed bottom-up is computed from an outline that keeps enough of contents. -/
theorem value_outline (f : Bytes → α) (file : α → β) (link : Bytes → β) (special : β)
    (directory : List β → β) (inode : Inode) :
    (outline f inode).value file link special directory =
      bottomUp (fun content => file (f content)) link special directory inode := by
  refine map_bottomUp _ (fun _ => ?_) (fun _ => ?_) ?_ (fun children => ?_) inode
  · rw [Outline.value]
  · rw [Outline.value]
  · rw [Outline.value]
  · rw [Outline.value, values_eq_map]

/-- The digest of a portrait is computed bottom-up. -/
theorem hash_of_portrait {digest : Bytes → Digest} {name : String} {inode : Inode} {node : Node}
    (h : portrait digest name inode = some node) :
    node.hash = bottomUp digest keccak256 .zero directoryHash inode := by
  induction inode using inode_induction generalizing name node with
  | file mode content =>
    rw [portrait, Option.some.injEq] at h
    rw [← h]
    rfl
  | directory mode entries ih =>
    rw [portrait, Option.map_eq_some_iff] at h
    obtain ⟨nodes, hnodes, rfl⟩ := h
    rw [portraits_eq_some_iff] at hnodes
    have hpairs : nodes.map (fun node => (utf8 node.name, node.hash)) =
        bottomUpEntries digest keccak256 .zero directoryHash entries := by
      induction hnodes with
      | nil => rfl
      | @cons entry node entries nodes hentry _ ihEntries =>
        obtain ⟨text, htext, hportrait⟩ := hentry
        obtain ⟨name, inode⟩ := entry
        rw [List.map_cons, bottomUpEntries, name_of_portrait hportrait, utf8_of_ofUtf8? htext,
          ih _ List.mem_cons_self hportrait,
          ihEntries fun entry hentry => ih entry (List.mem_cons_of_mem _ hentry)]
    rw [bottomUp, ← hpairs, ← map_sortByName, List.map_map]
    rfl
  | symlink target =>
    rw [portrait, Option.map_eq_some_iff] at h
    obtain ⟨text, htext, rfl⟩ := h
    rw [bottomUp, ← utf8_of_ofUtf8? htext]
    rfl
  | special mode => simp [portrait] at h

mutual
/-- The outline of a node, in which a file's content is its digest and its size. -/
def nodeOutline : Node → Outline (Digest × UInt64)
  | .file _ hash size => .file (hash, size)
  | .directory _ _ entries => .directory (nodeOutlines entries)
  | .link _ _ target => .link (utf8 target)

def nodeOutlines : List Node → List (Outline (Digest × UInt64))
  | [] => []
  | node :: rest => nodeOutline node :: nodeOutlines rest
end

private theorem nodeOutlines_eq_map (nodes : List Node) :
    nodeOutlines nodes = nodes.map nodeOutline := by
  induction nodes with
  | nil => rfl
  | cons node rest ih => rw [nodeOutlines, ih, List.map_cons]

/-- The digest of a well-formed tree is computed from its outline. -/
theorem hash_of_wellFormed {node : Node} (h : WellFormed node) :
    node.hash = (nodeOutline node).value Prod.fst keccak256 .zero directoryHash := by
  induction h with
  | file name hash size => rfl
  | directory name entries _ _ ih =>
    rw [nodeOutline, Outline.value, values_eq_map, nodeOutlines_eq_map, List.map_map]
    exact congrArg directoryHash (List.map_congr_left ih)
  | link name target => rfl

end HashedTree.Outlines
