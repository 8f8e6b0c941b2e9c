import HashedTree.Proofs.Outlines
import HashedTree.Proofs.TermsOfContents

/-!
# What a root digest binds

The digest of a directory of files and directories binds its outline with padded contents: trees of
one outline have one digest, and trees of one digest have one outline unless two of the byte strings
hashed on the way collide or one of them has the digest of the empty directory. It binds no names:
they decide about the order of entries and about nothing else.
-/
namespace HashedTree.RootDigests
open ByteBlocks Utf8Text KeccakDigest DigestCombinators ContentDigest ContentPadding
open DirectoryPortrait WellFormedTrees Outlines Outcomes

/-- Nothing but directories and regular files. -/
inductive FilesOnly : Inode → Prop where
  | file (mode : Nat) (content : Bytes) : FilesOnly (.file mode content)
  | directory (mode : Nat) (entries : List (Bytes × Inode))
      (beneath : ∀ entry ∈ entries, FilesOnly entry.2) : FilesOnly (.directory mode entries)

/-- The computation of the digest of something in a file system. -/
def term : Inode → HashTerm :=
  bottomUp HashTerm.ofContent HashTerm.text HashTerm.empty HashTerm.ofEntries

theorem term_directory (mode : Nat) (entries : List (Bytes × Inode)) :
    term (.directory mode entries) = HashTerm.ofEntries ((inNameOrder entries).map term) :=
  bottomUp_directory _ _ _ _ mode entries

theorem digest_term (inode : Inode) :
    (term inode).digest = bottomUp contentDigest keccak256 .zero directoryHash inode :=
  map_bottomUp HashTerm.digest HashTerm.digest_ofContent (fun _ => rfl) rfl
    HashTerm.digest_ofEntries inode

theorem separate_term {inode : Inode} (h : FilesOnly inode) : (term inode).Separate := by
  induction h with
  | file mode content => exact HashTerm.separate_ofContent content
  | directory mode entries _ ih =>
    rw [term_directory]
    apply HashTerm.separate_ofEntries
    intro child hchild
    obtain ⟨inode, hinode, rfl⟩ := List.mem_map.mp hchild
    obtain ⟨entry, hentry, rfl⟩ := mem_inNameOrder.mp hinode
    exact ih entry hentry

/-- Lists have equal images under one function if they have under another one that tells at least
as much apart. -/
private theorem map_eq_map_of_imp {A B C : Type} {f : A → B} {g : A → C} {xs ys : List A}
    (himp : ∀ x ∈ xs, ∀ y ∈ ys, f x = f y → g x = g y) (h : xs.map f = ys.map f) :
    xs.map g = ys.map g := by
  induction xs generalizing ys with
  | nil =>
    cases ys with
    | nil => rfl
    | cons y ys => simp at h
  | cons x xs ih =>
    cases ys with
    | nil => simp at h
    | cons y ys =>
      rw [List.map_cons, List.map_cons, List.cons.injEq] at h
      rw [List.map_cons, List.map_cons, himp x List.mem_cons_self y List.mem_cons_self h.1,
        ih (fun x hx y hy => himp x (List.mem_cons_of_mem _ hx) y (List.mem_cons_of_mem _ hy)) h.2]

/-- Files and directories that are hashed in the same way have the same padded contents at the same
places. -/
theorem outline_eq_of_term_eq {a b : Inode} (ha : FilesOnly a) (hb : FilesOnly b)
    (h : term a = term b) : outline zeroPadded a = outline zeroPadded b := by
  induction ha generalizing b with
  | file mode content =>
    cases hb with
    | file mode' other => exact congrArg Outline.file (HashTerm.ofContent_eq_iff.mp h)
    | directory mode' entries _ =>
      rw [term_directory] at h
      exact absurd h (HashTerm.ofContent_ne_ofEntries content _)
  | directory mode entries _ ih =>
    rw [term_directory] at h
    cases hb with
    | file mode' other => exact absurd h.symm (HashTerm.ofContent_ne_ofEntries other _)
    | directory mode' others beneath =>
      rw [term_directory] at h
      rw [outline_directory, outline_directory]
      refine congrArg Outline.directory (map_eq_map_of_imp ?_ (HashTerm.ofEntries_injective h))
      intro child hchild other hother heq
      obtain ⟨entry, hentry, rfl⟩ := mem_inNameOrder.mp hchild
      obtain ⟨entry', hentry', rfl⟩ := mem_inNameOrder.mp hother
      exact ih entry hentry (beneath entry' hentry') heq

theorem contentDigest_zeroPadded (content : Bytes) :
    contentDigest (zeroPadded content) = contentDigest content := by
  rw [← HashTerm.digest_ofContent, HashTerm.ofContent, chunks_zeroPadded,
    ← HashTerm.ofContent, HashTerm.digest_ofContent]

theorem hash_of_rootHash {fs : FileSystem} {hasher : ContentHasher} {digest : Bytes → Digest}
    (computes : Computes hasher digest) {path : Bytes} {directory : Inode} {hash : Digest}
    (found : fs.lookup true path = .ok directory) (built : rootHash fs hasher path = .ok hash) :
    hash = bottomUp digest keccak256 .zero directoryHash directory := by
  rw [rootHash, map_eq_ok] at built
  obtain ⟨tree, htree, rfl⟩ := built
  obtain ⟨inode, hlookup, -, hportrait⟩ := portrait_of_buildTree computes htree
  obtain rfl : inode = directory := Except.ok.inj (hlookup.symm.trans found)
  exact hash_of_portrait hportrait

/-- The root digests of two directories of files and directories are equal if the directories differ
in names and trailing zeros only, and, unless inputs collide or give zero, only then. -/
theorem rootHash_binds_outline {fsA fsB : FileSystem} {pathA pathB : Bytes} {a b : Inode}
    {hashA hashB : Digest} (foundA : fsA.lookup true pathA = .ok a)
    (foundB : fsB.lookup true pathB = .ok b) (filesA : FilesOnly a) (filesB : FilesOnly b)
    (builtA : rootHash fsA .chunked pathA = .ok hashA)
    (builtB : rootHash fsB .chunked pathB = .ok hashB) :
    (outline zeroPadded a = outline zeroPadded b → hashA = hashB) ∧
      (CollisionFree ((term a).inputs ++ (term b).inputs) →
        AvoidsZero ((term a).inputs ++ (term b).inputs) →
        hashA = hashB → outline zeroPadded a = outline zeroPadded b) := by
  have hashA_eq := hash_of_rootHash chunked_computes foundA builtA
  have hashB_eq := hash_of_rootHash chunked_computes foundB builtB
  constructor
  · intro h
    have hvalue (inode : Inode) := value_outline zeroPadded contentDigest keccak256 Digest.zero
      directoryHash inode
    simp only [contentDigest_zeroPadded] at hvalue
    rw [hashA_eq, hashB_eq, ← hvalue a, ← hvalue b, h]
  · intro free nonzero h
    rw [hashA_eq, hashB_eq, ← digest_term, ← digest_term] at h
    refine outline_eq_of_term_eq filesA filesB ?_
    exact HashTerm.eq_of_digest_eq free nonzero (separate_term filesA) (separate_term filesB)
      (List.subset_append_left _ _) (List.subset_append_right _ _) h

/-- A file system that holds one directory `r` with the given entries. -/
def systemWith (entries : List (Bytes × Inode)) : FileSystem where
  root := .directory 0o755 [(utf8 "r", .directory 0o755 entries)]
  workingDirectory := []
  heedsModes := true

theorem lookup_systemWith (entries : List (Bytes × Inode)) :
    (systemWith entries).lookup true (utf8 "r") = .ok (.directory 0o755 entries) := rfl

/-- A file and an empty directory. -/
def shortEntries : List (Bytes × Inode) :=
  [(utf8 "e", .directory 0o700 []), (utf8 "a", .file 0o644 (utf8 "x"))]

/-- The same under other names, listed in another order and with a trailing zero. -/
def paddedEntries : List (Bytes × Inode) :=
  [(utf8 "b", .file 0o600 [120, 0]), (utf8 "d", .directory 0o755 [])]

private theorem filesOnly_shortEntries : FilesOnly (.directory 0o755 shortEntries) := by
  refine .directory _ _ ?_
  simp only [shortEntries, List.mem_cons, List.not_mem_nil, or_false, forall_eq_or_imp, forall_eq]
  exact ⟨.directory _ _ (by simp), .file _ _⟩

private theorem filesOnly_paddedEntries : FilesOnly (.directory 0o755 paddedEntries) := by
  refine .directory _ _ ?_
  simp only [paddedEntries, List.mem_cons, List.not_mem_nil, or_false, forall_eq_or_imp, forall_eq]
  exact ⟨.file _ _, .directory _ _ (by simp)⟩

private theorem inputs_subset : (term (.directory 0o755 shortEntries)).inputs ++
    (term (.directory 0o755 paddedEntries)).inputs ⊆
      (term (.directory 0o755 shortEntries)).inputs := by
  have hterm : term (.directory 0o755 paddedEntries) = term (.directory 0o755 shortEntries) := rfl
  rw [hterm]
  exact List.append_subset.mpr ⟨List.Subset.refl _, List.Subset.refl _⟩

theorem paddedEntries_keep_rootHash :
    ∃ hash, rootHash (systemWith shortEntries) .chunked (utf8 "r") = .ok hash ∧
      rootHash (systemWith paddedEntries) .chunked (utf8 "r") = .ok hash ∧
      CollisionFree ((term (.directory 0o755 shortEntries)).inputs ++
        (term (.directory 0o755 paddedEntries)).inputs) ∧
      AvoidsZero ((term (.directory 0o755 shortEntries)).inputs ++
        (term (.directory 0o755 paddedEntries)).inputs) ∧
      outline zeroPadded (.directory 0o755 shortEntries) =
        outline zeroPadded (.directory 0o755 paddedEntries) := by
  have treeA : buildTree (systemWith shortEntries) .chunked (utf8 "r") = .ok (.ofEntries "."
      [.ofEntries "e" [], .file "a" (contentDigest (utf8 "x")) 1]) := rfl
  have treeB : buildTree (systemWith paddedEntries) .chunked (utf8 "r") = .ok (.ofEntries "."
      [.file "b" (contentDigest [120, 0]) 2, .ofEntries "d" []]) := rfl
  have builtA := congrArg (Except.map Node.hash) treeA
  have builtB := congrArg (Except.map Node.hash) treeB
  rw [← rootHash, ok_map] at builtA builtB
  have binds := rootHash_binds_outline (lookup_systemWith _) (lookup_systemWith _)
    filesOnly_shortEntries filesOnly_paddedEntries builtA builtB
  have free : CollisionFree (term (.directory 0o755 shortEntries)).inputs :=
    collisionFree_of_nodup (by decide +kernel)
  have nonzero : AvoidsZero (term (.directory 0o755 shortEntries)).inputs := by decide +kernel
  have equal := binds.1 rfl
  exact ⟨_, builtA, equal ▸ builtB, free.subset inputs_subset, nonzero.subset inputs_subset,
    binds.2 (free.subset inputs_subset) (nonzero.subset inputs_subset) equal⟩

/-- Trees of one outline have one digest: names decide about the order of entries and about nothing
else. -/
theorem hash_ignores_names :
    (∀ a b : Node, Constructed a → Constructed b → nodeOutline a = nodeOutline b →
      a.hash = b.hash) ∧
    ∀ (fsA fsB : FileSystem) (hasher : ContentHasher) (digest : Bytes → Digest)
      (pathA pathB : Bytes) (a b : Inode) (hashA hashB : Digest), Computes hasher digest →
      fsA.lookup true pathA = .ok a → fsB.lookup true pathB = .ok b →
      rootHash fsA hasher pathA = .ok hashA → rootHash fsB hasher pathB = .ok hashB →
      outline id a = outline id b → hashA = hashB := by
  constructor
  · intro a b ha hb h
    rw [hash_of_wellFormed ha.wellFormed, hash_of_wellFormed hb.wellFormed, h]
  · intro fsA fsB hasher digest pathA pathB a b hashA hashB computes foundA foundB builtA builtB h
    have hvalue (inode : Inode) := value_outline id digest keccak256 Digest.zero directoryHash inode
    simp only [id] at hvalue
    rw [hash_of_rootHash computes foundA builtA, hash_of_rootHash computes foundB builtB,
      ← hvalue a, ← hvalue b]
    exact congrArg _ h

/-- One file, under any name. -/
def loneFile (name : String) : List (Bytes × Inode) := [(utf8 name, .file 0o644 (utf8 "x"))]

private theorem hash_ofEntries_singleton (name : String) (node : Node) :
    (Node.ofEntries name [node]).hash = keccak256 node.hash.bytes := by
  simp only [Node.ofEntries, Node.sortByName, Node.insertByName, List.foldr_cons, List.foldr_nil,
    Node.hash, List.map_cons, List.map_nil, directoryHash]

private theorem rootHash_loneFile_a : rootHash (systemWith (loneFile "a")) .chunked (utf8 "r") =
    .ok (keccak256 (contentDigest (utf8 "x")).bytes) := by
  have tree : buildTree (systemWith (loneFile "a")) .chunked (utf8 "r") =
      .ok (.ofEntries "." [.file "a" (contentDigest (utf8 "x")) 1]) := rfl
  rw [rootHash, tree, ok_map, hash_ofEntries_singleton, Node.hash]

private theorem rootHash_loneFile_b : rootHash (systemWith (loneFile "b")) .chunked (utf8 "r") =
    .ok (keccak256 (contentDigest (utf8 "x")).bytes) := by
  have tree : buildTree (systemWith (loneFile "b")) .chunked (utf8 "r") =
      .ok (.ofEntries "." [.file "b" (contentDigest (utf8 "x")) 1]) := rfl
  rw [rootHash, tree, ok_map, hash_ofEntries_singleton, Node.hash]

theorem loneFile_hash_ignores_name :
    Constructed (.ofEntries "." [.file "a" .zero 1]) ∧
      Constructed (.ofEntries "." [.file "b" .zero 1]) ∧
      (Node.ofEntries "." [.file "a" .zero 1]).hash =
        (Node.ofEntries "." [.file "b" .zero 1]).hash ∧
      outline id (.directory 0o755 (loneFile "a")) = outline id (.directory 0o755 (loneFile "b")) ∧
      ∃ hashA hashB, rootHash (systemWith (loneFile "a")) .chunked (utf8 "r") = .ok hashA ∧
        rootHash (systemWith (loneFile "b")) .chunked (utf8 "r") = .ok hashB ∧ hashA = hashB := by
  have constructed (name : String) : Constructed (.ofEntries "." [.file name .zero 1]) :=
    .directory _ _ (by simpa using .file name .zero 1)
  refine ⟨constructed "a", constructed "b", ?_, rfl, _, _, rootHash_loneFile_a,
    rootHash_loneFile_b, ?_⟩
  · exact hash_ignores_names.1 _ _ (constructed "a") (constructed "b") rfl
  · exact hash_ignores_names.2 _ _ _ _ _ _ _ _ _ _ chunked_computes (lookup_systemWith _)
      (lookup_systemWith _) rootHash_loneFile_a rootHash_loneFile_b rfl

/-- Directories that differ in a name can have one digest although no inputs collide. -/
theorem names_are_not_bound :
    ¬∀ (fsA fsB : FileSystem) (pathA pathB : Bytes) (a b : Inode) (hashA hashB : Digest),
      fsA.lookup true pathA = .ok a → fsB.lookup true pathB = .ok b →
      rootHash fsA .chunked pathA = .ok hashA → rootHash fsB .chunked pathB = .ok hashB →
      outline id a = outline id b →
      (∃ names inode, a.at? names = some inode ∧ b.at? names = none) →
      CollisionFree ((term a).inputs ++ (term b).inputs) → hashA ≠ hashB := by
  intro bound
  have hterm : term (.directory 0o755 (loneFile "b")) =
      term (.directory 0o755 (loneFile "a")) := rfl
  have free : CollisionFree (term (.directory 0o755 (loneFile "a"))).inputs :=
    collisionFree_of_nodup (by decide +kernel)
  refine bound _ _ _ _ _ _ _ _ (lookup_systemWith _) (lookup_systemWith _) rootHash_loneFile_a
    rootHash_loneFile_b rfl ?_ ?_ rfl
  · exact ⟨[utf8 "a"], .file 0o644 (utf8 "x"), rfl, rfl⟩
  · rw [hterm]
    exact free.subset (List.append_subset.mpr ⟨List.Subset.refl _, List.Subset.refl _⟩)

end HashedTree.RootDigests
