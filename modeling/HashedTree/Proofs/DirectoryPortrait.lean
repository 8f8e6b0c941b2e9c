import HashedTree.Proofs.BuildSteps
import HashedTree.Proofs.EntrySearch
import HashedTree.Proofs.PathResolution

/-!
# The tree that a directory should have

The portrait of something in a file system is its node, said without a walk: no path, no right and
no order of listing plays a part in it. It is missing only where a name or a link's target is no
text, or where something special stands. The main statements are that a successful build gives the
portrait of the directory at its path, and that following names in a portrait gives the portrait of
what these names lead to.
-/
namespace HashedTree.DirectoryPortrait
open ByteBlocks Utf8Text TreeBuilding NameOrder EntrySearch PathResolution BuildSteps

/-- Induction over everything beneath a directory. -/
theorem inode_induction {P : Inode → Prop} (file : ∀ mode content, P (.file mode content))
    (directory : ∀ mode entries, (∀ entry ∈ entries, P entry.2) → P (.directory mode entries))
    (symlink : ∀ target, P (.symlink target)) (special : ∀ mode, P (.special mode)) :
    ∀ inode, P inode := by
  intro inode
  refine @Inode.rec P (fun entries => ∀ entry ∈ entries, P entry.2) (fun entry => P entry.2)
    file directory symlink special ?_ ?_ ?_ inode
  · simp
  · intro entry rest hentry hrest other hother
    rcases List.mem_cons.mp hother with rfl | hother
    · exact hentry
    · exact hrest other hother
  · intro name inode h
    exact h

/-- No directory holds two entries of one name. -/
inductive DistinctNames : Inode → Prop where
  | file (mode : Nat) (content : Bytes) : DistinctNames (.file mode content)
  | directory (mode : Nat) (entries : List (Bytes × Inode))
      (distinct : (entries.map Prod.fst).Nodup)
      (beneath : ∀ entry ∈ entries, DistinctNames entry.2) :
      DistinctNames (.directory mode entries)
  | symlink (target : Bytes) : DistinctNames (.symlink target)
  | special (mode : Nat) : DistinctNames (.special mode)

theorem DistinctNames.of_mem_entries {inode : Inode} (h : DistinctNames inode) :
    ∀ entry ∈ inode.entries, DistinctNames entry.2 := by
  cases h with
  | directory mode entries distinct beneath => exact beneath
  | file mode content => nofun
  | symlink target => nofun
  | special mode => nofun

theorem DistinctNames.child {inode child : Inode} {name : Bytes} (h : DistinctNames inode)
    (hchild : inode.child? name = some child) : DistinctNames child :=
  of_child? h.of_mem_entries hchild

theorem DistinctNames.lookup {fs : FileSystem} {followLast : Bool} {path : Bytes} {inode : Inode}
    (h : DistinctNames fs.root) (hlookup : fs.lookup followLast path = .ok inode) :
    DistinctNames inode := by
  obtain ⟨position, hresolve⟩ := lookup_eq_ok.mp hlookup
  exact of_at? (fun _ h => h.of_mem_entries) h (at?_of_resolve hresolve)

mutual
/-- The node that something in a file system should have under a name. -/
def portrait (digest : Bytes → Digest) (name : String) : Inode → Option Node
  | .file _ content => some (.file name (digest content) (UInt64.ofNat content.length))
  | .directory _ entries => (portraits digest entries).map (Node.ofEntries name)
  | .symlink target => (ofUtf8? target).map (Node.ofTarget name)
  | .special _ => none

/-- The nodes of entries under their own names. -/
def portraits (digest : Bytes → Digest) : List (Bytes × Inode) → Option (List Node)
  | [] => some []
  | (name, inode) :: rest =>
    (ofUtf8? name).bind fun text => (portrait digest text inode).bind fun node =>
      (portraits digest rest).map (node :: ·)
end

/-- The node of an entry under its own name. -/
def IsPortrait (digest : Bytes → Digest) (entry : Bytes × Inode) (node : Node) : Prop :=
  ∃ text, ofUtf8? entry.1 = some text ∧ portrait digest text entry.2 = some node

theorem portraits_eq_some_iff {digest : Bytes → Digest} {entries : List (Bytes × Inode)}
    {nodes : List Node} :
    portraits digest entries = some nodes ↔ List.Forall₂ (IsPortrait digest) entries nodes := by
  induction entries generalizing nodes with
  | nil => simp [portraits, eq_comm]
  | cons entry rest ih =>
    obtain ⟨name, inode⟩ := entry
    simp only [portraits, Option.bind_eq_some_iff, Option.map_eq_some_iff,
      List.forall₂_cons_left_iff, IsPortrait]
    constructor
    · rintro ⟨text, htext, node, hnode, others, hothers, rfl⟩
      exact ⟨node, others, ⟨text, htext, hnode⟩, ih.mp hothers, rfl⟩
    · rintro ⟨node, others, ⟨text, htext, hnode⟩, hothers, rfl⟩
      exact ⟨text, htext, node, hnode, others, ih.mpr hothers, rfl⟩

theorem portrait_rename {digest : Bytes → Digest} {name : String} {inode : Inode} {node : Node}
    (h : portrait digest name inode = some node) (other : String) :
    portrait digest other inode = some (node.rename other) := by
  cases inode with
  | file mode content =>
    rw [portrait, Option.some.injEq] at h
    rw [← h]
    rfl
  | directory mode entries =>
    rw [portrait, Option.map_eq_some_iff] at h
    obtain ⟨nodes, hnodes, rfl⟩ := h
    rw [portrait, hnodes]
    rfl
  | symlink target =>
    rw [portrait, Option.map_eq_some_iff] at h
    obtain ⟨text, htext, rfl⟩ := h
    rw [portrait, htext]
    rfl
  | special mode => simp [portrait] at h

theorem name_of_portrait {digest : Bytes → Digest} {name : String} {inode : Inode} {node : Node}
    (h : portrait digest name inode = some node) : node.name = name := by
  cases inode with
  | file mode content =>
    rw [portrait, Option.some.injEq] at h
    rw [← h]
    rfl
  | directory mode entries =>
    rw [portrait, Option.map_eq_some_iff] at h
    obtain ⟨nodes, hnodes, rfl⟩ := h
    rfl
  | symlink target =>
    rw [portrait, Option.map_eq_some_iff] at h
    obtain ⟨text, htext, rfl⟩ := h
    rfl
  | special mode => simp [portrait] at h

/-- Whatever a hasher says about a file that it could read is the digest of the file's bytes. -/
def Computes (hasher : ContentHasher) (digest : Bytes → Digest) : Prop :=
  ∀ fs path mode content d,
    hasher path (FileSystem.readInode fs (.file mode content)) = .ok d → d = digest content

theorem chunked_computes : Computes .chunked ContentDigest.contentDigest := by
  intro fs path mode content d h
  simp only [ContentHasher.chunked, FileSystem.readInode] at h
  split at h
  · exact (Except.ok.inj h).symm
  · cases h

section Walking
variable {fs : FileSystem} {hasher : ContentHasher} {digest : Bytes → Digest}

/-- A node that was built under a path is the portrait of what stands there. -/
theorem portrait_of_walkNode (computes : Computes hasher digest) {path : Bytes}
    {name : Option Bytes} {inode : Inode} {node : Node}
    (h : (walkNode fs hasher path name inode).result = .ok node) :
    ∃ text, nameText path name = .ok text ∧ portrait digest text inode = some node := by
  induction inode using inode_induction generalizing path name node with
  | file mode content =>
    obtain ⟨text, d, htext, hd, rfl⟩ := walkNode_file_eq_ok.mp h
    refine ⟨text, htext, ?_⟩
    rw [portrait, computes fs path mode content d hd]
  | directory mode entries ih =>
    obtain ⟨text, nodes, htext, -, hnodes, rfl⟩ := walkNode_directory_eq_ok.mp h
    refine ⟨text, htext, ?_⟩
    have walked := (List.forall₂_and_left _ _).mpr ⟨@ih, walkEntries_eq_ok.mp hnodes⟩
    have hportraits : portraits digest entries = some nodes := by
      refine portraits_eq_some_iff.mpr (walked.imp ?_)
      rintro entry node ⟨ih, -, hnode⟩
      obtain ⟨text, htext, hportrait⟩ := ih hnode
      exact ⟨text, nameText_some_eq_ok.mp htext, hportrait⟩
    rw [portrait, hportraits]
    rfl
  | symlink target =>
    obtain ⟨text, link, htext, hlink, rfl⟩ := walkNode_symlink_eq_ok.mp h
    refine ⟨text, htext, ?_⟩
    rw [portrait, hlink]
    rfl
  | special mode => cases h

/-- A successful build gives the portrait of the directory at its path. -/
theorem portrait_of_buildTree (computes : Computes hasher digest) {path : Bytes} {tree : Node}
    (built : buildTree fs hasher path = .ok tree) :
    ∃ directory, fs.lookup true path = .ok directory ∧ directory.isDirectory ∧
      portrait digest "." directory = some tree := by
  obtain ⟨directory, node, hlookup, isDirectory, hnode, rfl⟩ := buildTree_eq_ok.mp built
  obtain ⟨text, -, hportrait⟩ := portrait_of_walkNode computes hnode
  exact ⟨directory, hlookup, isDirectory, portrait_rename hportrait rootName⟩

end Walking

section Looking
variable {digest : Bytes → Digest}

theorem name_of_isPortrait {entry : Bytes × Inode} {node : Node}
    (h : IsPortrait digest entry node) : utf8 node.name = entry.1 := by
  obtain ⟨text, htext, hportrait⟩ := h
  rw [name_of_portrait hportrait, utf8_of_ofUtf8? htext]

private theorem find?_portraits {entries : List (Bytes × Inode)} {nodes : List Node}
    (h : List.Forall₂ (IsPortrait digest) entries nodes) (name : String) :
    nodes.find? (·.name = name) =
      ((entries.find? (·.1 = utf8 name)).map Prod.snd).bind (portrait digest name) := by
  induction h with
  | nil => rfl
  | @cons entry node entries nodes hentry _ ih =>
    obtain ⟨text, htext, hportrait⟩ := hentry
    have hname := name_of_portrait hportrait
    have hbytes := utf8_of_ofUtf8? htext
    by_cases heq : node.name = name
    · have hkey : entry.1 = utf8 name := by rw [← hbytes, ← hname, heq]
      rw [List.find?_cons_of_pos (by simpa using heq), List.find?_cons_of_pos (by simpa using hkey),
        Option.map_some, Option.bind_some, ← heq, hname, hportrait]
    · have hkey : entry.1 ≠ utf8 name := by
        intro hkey
        exact heq (hname.trans (utf8_injective (hbytes.trans hkey)))
      rw [List.find?_cons_of_neg (by simpa using heq), List.find?_cons_of_neg (by simpa using hkey),
        ih]

private theorem search_of_entries_nil {node : Node} (h : node.entries = []) (name : String) :
    node.search name = none := by
  rw [search_eq_find? (by rw [h]; exact List.Pairwise.nil), h]
  rfl

theorem search_portrait {name : String} {inode : Inode} {node : Node}
    (distinct : DistinctNames inode) (h : portrait digest name inode = some node)
    (child : String) :
    node.search child = (inode.child? (utf8 child)).bind (portrait digest child) := by
  cases distinct with
  | directory mode entries distinct beneath =>
    rw [portrait, Option.map_eq_some_iff] at h
    obtain ⟨nodes, hnodes, rfl⟩ := h
    rw [portraits_eq_some_iff] at hnodes
    have hnames := nodup_names name_of_isPortrait hnodes distinct
    have hascending : Ascending (Node.ofEntries name nodes).entries := ascending_sortByName hnames
    rw [search_eq_find? hascending]
    exact (find?_sortByName hnames child).trans (find?_portraits hnodes child)
  | file mode content =>
    rw [portrait, Option.some.injEq] at h
    rw [search_of_entries_nil (h ▸ rfl)]
    rfl
  | symlink target =>
    rw [portrait, Option.map_eq_some_iff] at h
    obtain ⟨text, htext, rfl⟩ := h
    rw [search_of_entries_nil rfl]
    rfl
  | special mode => simp [portrait] at h

theorem portrait_child {name : String} {inode child : Inode} {node : Node}
    (h : portrait digest name inode = some node) {childName : String}
    (hchild : inode.child? (utf8 childName) = some child) :
    ∃ found, portrait digest childName child = some found := by
  cases inode with
  | directory mode entries =>
    rw [portrait, Option.map_eq_some_iff] at h
    obtain ⟨nodes, hnodes, -⟩ := h
    rw [portraits_eq_some_iff] at hnodes
    simp only [Inode.child?, Inode.entries, Option.map_eq_some_iff] at hchild
    obtain ⟨entry, hfind, rfl⟩ := hchild
    have hkey : entry.1 = utf8 childName := by simpa using List.find?_some hfind
    obtain ⟨index, hindex, rfl⟩ := List.getElem_of_mem (List.mem_of_find?_eq_some hfind)
    obtain ⟨text, htext, hportrait⟩ :=
      hnodes.get hindex (hnodes.length_eq ▸ hindex)
    have hname : text = childName := utf8_injective ((utf8_of_ofUtf8? htext).trans hkey)
    exact ⟨_, hname ▸ hportrait⟩
  | file mode content => simp [Inode.child?, Inode.entries] at hchild
  | symlink target => simp [Inode.child?, Inode.entries] at hchild
  | special mode => simp [Inode.child?, Inode.entries] at hchild

/-- Following names in a portrait gives the portrait of what they lead to. -/
theorem follow_portrait {name : String} {inode : Inode} {node : Node}
    (distinct : DistinctNames inode) (h : portrait digest name inode = some node)
    {names : List String} (nonempty : names ≠ []) (entryNames : ∀ n ∈ names, IsEntryName n) :
    node.follow names =
      (inode.at? (names.map utf8)).bind (portrait digest (names.getLast nonempty)) := by
  induction names generalizing name inode node with
  | nil => exact absurd rfl nonempty
  | cons first rest ih =>
    have hfirst := entryNames first List.mem_cons_self
    have hrest : ∀ n ∈ rest, IsEntryName n := fun n hn => entryNames n (List.mem_cons_of_mem _ hn)
    rw [follow_cons hfirst, search_portrait distinct h, List.map_cons, Inode.at?]
    cases hchild : inode.child? (utf8 first) with
    | none => rfl
    | some child =>
      obtain ⟨found, hfound⟩ := portrait_child h hchild
      rw [Option.bind_some, Option.bind_some, hfound, Option.bind_some]
      cases rest with
      | nil => exact hfound.symm
      | cons second others =>
        rw [ih (distinct.child hchild) hfound (by simp) hrest]
        rfl

theorem portrait_at? {name : String} {inode below : Inode} {node : Node}
    (h : portrait digest name inode = some node) {names : List String} (nonempty : names ≠ [])
    (hat : inode.at? (names.map utf8) = some below) :
    ∃ found, portrait digest (names.getLast nonempty) below = some found := by
  induction names generalizing name inode node with
  | nil => exact absurd rfl nonempty
  | cons first rest ih =>
    rw [List.map_cons, Inode.at?, Option.bind_eq_some_iff] at hat
    obtain ⟨child, hchild, hrest⟩ := hat
    obtain ⟨found, hfound⟩ := portrait_child h hchild
    cases rest with
    | nil =>
      obtain rfl : child = below := Option.some.inj hrest
      exact ⟨found, hfound⟩
    | cons second others => exact ih hfound (by simp) hrest

end Looking

end HashedTree.DirectoryPortrait
