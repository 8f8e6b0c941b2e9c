import HashedTree.Proofs.EntrySearch

/-!
# What a path leads to depends on its names only

The names of a path stand between its slashes; nothing at all and a single dot are no names. A path
leads from entry to entry by its names, one after the other, and nowhere if two dots are among them.
The names of two paths that are joined by a slash are the names of the first one and then those of
the second one, so that the joined path leads on from where the first one ends.
-/
namespace HashedTree.PathNames
open NodeLookup NameOrder EntrySearch

/-- What stands between the slashes of a path, apart from nothing and a single dot. -/
def names (path : String) : List String :=
  ((path.toList.splitOn '/').map String.ofList).filter fun part => part ≠ "" ∧ part ≠ "."

/-- From entry to entry by their names. Two dots lead nowhere, wherever they stand. -/
def descendant? (tree : Node) (names : List String) : Option Node :=
  if ".." ∈ names then none else names.foldlM Node.search tree

def slashes (count : Nat) : String := String.ofList (List.replicate count '/')

variable {tree : Node} {parts : List String} {p q path : String}

theorem components_eq_splitOn (text : List Char) : components text = text.splitOn '/' := by
  induction text with
  | nil => rfl
  | cons c rest ih =>
    rw [List.splitOn_cons_eq_if_modifyHead, components, ih]
    by_cases slash : c = '/'
    · rw [if_pos slash, if_pos (beq_iff_eq.mpr slash)]
    · rw [if_neg slash, if_neg (by simpa using slash)]
      cases split : rest.splitOn '/' with
      | nil => exact absurd split (List.splitOn_ne_nil '/' rest)
      | cons first others => rfl

/-- Parts that are no names are passed over. -/
theorem follow_filter (tree : Node) (parts : List String) :
    tree.follow (parts.filter fun part => part ≠ "" ∧ part ≠ ".") = tree.follow parts := by
  induction parts generalizing tree with
  | nil => rfl
  | cons part parts ih =>
    by_cases skipped : part = "" ∨ part = "."
    · rw [List.filter_cons_of_neg (by simpa [← not_or] using skipped), ih, Node.follow,
        if_pos skipped]
    · rw [List.filter_cons_of_pos (by simpa [← not_or] using skipped), Node.follow, Node.follow,
        if_neg skipped]
      split
      · rfl
      · exact Option.bind_congr fun child _ => ih child

theorem locate_eq_follow (tree : Node) (path : String) :
    tree.locate path = tree.follow (names path) := by
  rw [Node.locate, components_eq_splitOn, names, follow_filter]

/-- Names are followed to the descendant that they lead to. -/
theorem follow_eq_descendant? (areNames : ∀ part ∈ parts, part ≠ "" ∧ part ≠ ".") :
    tree.follow parts = descendant? tree parts := by
  induction parts generalizing tree with
  | nil => rfl
  | cons part parts ih =>
    obtain ⟨⟨nonempty, notHere⟩, others⟩ := List.forall_mem_cons.mp areNames
    rw [Node.follow, if_neg (not_or.mpr ⟨nonempty, notHere⟩), descendant?]
    by_cases parent : part = ".."
    · rw [if_pos parent, if_pos (parent ▸ List.mem_cons_self)]
    · rw [if_neg parent, List.foldlM_cons]
      by_cases later : ".." ∈ parts
      · -- even where all names before the dots are found
        rw [if_pos (List.mem_cons_of_mem _ later), Option.bind_eq_none_iff]
        intro child _
        rw [ih others, descendant?, if_pos later]
      · rw [if_neg (by simp [Ne.symm parent, later])]
        refine Option.bind_congr fun child _ => ?_
        rw [ih others, descendant?, if_neg later]

theorem locate_eq_descendant? (tree : Node) (path : String) :
    tree.locate path = descendant? tree (names path) := by
  rw [locate_eq_follow, follow_eq_descendant?]
  intro part hpart
  simpa using (List.mem_filter.mp hpart).2

theorem names_join (p q : String) : names (p ++ "/" ++ q) = names p ++ names q := by
  have joined : (p ++ "/" ++ q).toList = p.toList ++ '/' :: q.toList := by simp
  rw [names, names, names, joined, List.splitOn_append_cons_self, List.map_append,
    List.filter_append]

theorem locate_join (tree : Node) (p q : String) :
    tree.locate (p ++ "/" ++ q) = (tree.locate p).bind (·.locate q) := by
  rw [locate_eq_follow, names_join, follow_append, ← locate_eq_follow]
  exact Option.bind_congr fun found _ => (locate_eq_follow found q).symm

theorem names_empty : names "" = [] := by decide

theorem slashes_succ (count : Nat) : slashes (count + 1) = "" ++ "/" ++ slashes count := by
  rw [← String.toList_inj]
  simp [slashes, List.replicate_succ]

/-- Slashes in front of a path add no names. -/
theorem names_slashes_append (count : Nat) (path : String) :
    names (slashes count ++ path) = names path := by
  induction count with
  | zero => rw [show slashes 0 = "" from rfl, String.empty_append]
  | succ count ih =>
    rw [slashes_succ, String.append_assoc, names_join, names_empty, List.nil_append, ih]

/-- Any number of slashes parts names as a single one does. -/
theorem names_append_slashes (count : Nat) (p q : String) :
    names (p ++ slashes (count + 1) ++ q) = names p ++ names q := by
  have parted : p ++ slashes (count + 1) ++ q = p ++ "/" ++ (slashes count ++ q) := by
    rw [slashes_succ, String.empty_append]
    simp only [String.append_assoc]
  rw [parted, names_join, names_slashes_append]

/-- What has no entries leads nowhere by a name. -/
theorem descendant?_of_no_entries (leaf : tree.entries = []) (named : parts ≠ []) :
    descendant? tree parts = none := by
  cases parts with
  | nil => exact absurd rfl named
  | cons part parts =>
    have notFound : tree.search part = none := by
      rw [Node.search, leaf, searchWithin_nil]
    rw [descendant?, List.foldlM_cons, notFound]
    exact ite_self none

/-- A path leads to the descendant that its names lead to. A path that is joined of two leads on by
the second one from where the first one ends; it does not matter how many slashes stand in front,
between and behind, and no name leads on from a file or a link. -/
theorem locate_composes (tree : Node) (p q : String) :
    tree.locate (p ++ "/" ++ q) = (tree.locate p).bind (·.locate q) ∧
      tree.locate p = descendant? tree (names p) ∧
      (∀ before between behind : Nat,
        tree.locate (slashes before ++ p ++ slashes (between + 1) ++ q ++ slashes behind) =
          tree.locate (p ++ "/" ++ q)) ∧
      (".." ∈ names p → tree.locate p = none) ∧
      (∀ found, tree.locate p = some found → found.kind ≠ .directory → names q ≠ [] →
        tree.locate (p ++ "/" ++ q) = none) := by
  refine ⟨locate_join tree p q, locate_eq_descendant? tree p, ?_, ?_, ?_⟩
  · intro before between behind
    have behindNothing : names (q ++ slashes behind) = names q := by
      cases behind with
      | zero => rw [show slashes 0 = "" from rfl, String.append_empty]
      | succ behind =>
        rw [← String.append_empty (s := q ++ slashes (behind + 1)), names_append_slashes,
          names_empty, List.append_nil]
    have same : names (slashes before ++ p ++ slashes (between + 1) ++ q ++ slashes behind) =
        names (p ++ "/" ++ q) := by
      rw [String.append_assoc, names_append_slashes, names_slashes_append, behindNothing,
        names_join]
    rw [locate_eq_follow, same, ← locate_eq_follow]
  · intro parent
    rw [locate_eq_descendant?, descendant?, if_pos parent]
  · intro found hfound notDirectory named
    have leaf : found.entries = [] := by
      cases found with
      | directory name hash entries => exact absurd rfl notDirectory
      | file | link => rfl
    rw [locate_join, hfound, Option.bind_some, locate_eq_descendant?,
      descendant?_of_no_entries leaf named]

def innerFile : Node := .file "inner.txt" (.ofByte 9) 3

def nestedTree : Node :=
  .ofEntries "root" [.ofEntries "sub" [innerFile], .file "top" (.ofByte 1) 1]

/-- A path with slashes and dots at every place leads to a file, and no name leads on from it. -/
theorem nestedTree_located :
    nestedTree.locate "/sub/.//inner.txt//" = some innerFile ∧
      innerFile.kind ≠ .directory ∧ names "./below" ≠ [] ∧
      nestedTree.locate "/sub/.//inner.txt///./below" = none ∧
      ".." ∈ names "sub/.." ∧ nestedTree.locate "sub/.." = none := by
  have located : nestedTree.locate "/sub/.//inner.txt//" = some innerFile := by
    have spelled : names "/sub/.//inner.txt//" = ["sub", "inner.txt"] := by decide
    have outer : nestedTree.search "sub" = some (.ofEntries "sub" [innerFile]) :=
      search_ofEntries (by decide) List.mem_cons_self
    have inner : (Node.ofEntries "sub" [innerFile]).search "inner.txt" = some innerFile :=
      search_ofEntries (by decide) List.mem_cons_self
    rw [(locate_composes nestedTree _ "").2.1, spelled, descendant?, if_neg (by decide)]
    simp [outer, inner]
  have notDirectory : innerFile.kind ≠ .directory := by decide
  have named : names "./below" ≠ [] := by decide
  have parent : ".." ∈ names "sub/.." := by decide
  have beyond : nestedTree.locate "/sub/.//inner.txt///./below" = none := by
    have joined : "/sub/.//inner.txt///./below" = "/sub/.//inner.txt//" ++ "/" ++ "./below" := by
      decide +kernel
    rw [joined]
    exact (locate_composes nestedTree _ _).2.2.2.2 innerFile located notDirectory named
  exact ⟨located, notDirectory, named, beyond, parent,
    (locate_composes nestedTree _ "").2.2.2.1 parent⟩

end HashedTree.PathNames
