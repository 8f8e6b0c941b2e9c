import HashedTree.Proofs.HashTerms
import HashedTree.Proofs.NodeLines
import HashedTree.Proofs.WellFormedTrees

/-!
# A drawing shows one tree only

The lines of a drawing are apart if no name and no target has a line feed. Beneath a node, the lines
that go deeper are those that start with the deeper indentation, which the branch of no sibling
does; so the lines of an entry end where the next sibling's line begins, and a tree is read
back from the top. The one thing that a line leaves open is where the name of a link ends. There the
digest decides, which is that of the target.
-/
namespace HashedTree.DrawnTrees
open Utf8Text DigestCombinators TreeDrawing NodeLines WellFormedTrees

/-- The mark in front of an entry. -/
def branch (isLast : Bool) : String := if isLast then "└── " else "├── "

/-- What the lines beneath an entry have where it has its mark. -/
def deeper (isLast : Bool) : String := if isLast then "    " else "│   "

theorem entryLines_cons (indent : String) (entry : Node) (rest : List Node) :
    entryLines indent (entry :: rest) =
      (indent ++ branch rest.isEmpty ++ nodeLine entry) ::
        (linesBelow (indent ++ deeper rest.isEmpty) entry ++ entryLines indent rest) := rfl

theorem length_branch : ∀ isLast, (branch isLast).length = 4 := by decide

theorem length_deeper : ∀ isLast, (deeper isLast).length = 4 := by decide

theorem branch_ne_deeper : ∀ isLast isLast', branch isLast ≠ deeper isLast' := by decide

theorem branch_injective : ∀ isLast isLast', branch isLast = branch isLast' → isLast = isLast' := by
  decide

theorem oneLine_branch : ∀ isLast, OneLine (branch isLast) := by decide

theorem oneLine_deeper : ∀ isLast, OneLine (deeper isLast) := by decide

/-- Every line beneath a node is that of a node in it, behind the indentation and more. -/
theorem of_mem_linesBelow {node : Node} {indent line : String} (h : line ∈ linesBelow indent node) :
    ∃ ornament inner, OneLine ornament ∧ inner ∈ node.preorder ∧
      line = indent ++ ornament ++ nodeLine inner := by
  induction node using node_induction generalizing indent with
  | file name hash size => cases h
  | link name hash target => cases h
  | directory name hash entries ih =>
    suffices ∃ ornament inner, OneLine ornament ∧ inner ∈ Node.preorderAll entries ∧
        line = indent ++ ornament ++ nodeLine inner by
      obtain ⟨ornament, inner, hornament, hinner, hline⟩ := this
      exact ⟨ornament, inner, hornament, List.mem_cons_of_mem _ hinner, hline⟩
    rw [linesBelow] at h
    -- the indentation changes with the depth only, so it stays fixed along the siblings
    induction entries with
    | nil => cases h
    | cons entry rest ihRest =>
      rw [List.forall_mem_cons] at ih
      rw [entryLines_cons, List.mem_cons, List.mem_append] at h
      rcases h with rfl | h | h
      · exact ⟨branch _, entry, oneLine_branch _,
          List.mem_append_left _ entry.self_mem_preorder, rfl⟩
      · obtain ⟨ornament, inner, hornament, hinner, rfl⟩ := ih.1 h
        exact ⟨deeper rest.isEmpty ++ ornament, inner, (oneLine_deeper _).append hornament,
          List.mem_append_left _ hinner, by simp only [String.append_assoc]⟩
      · obtain ⟨ornament, inner, hornament, hinner, hline⟩ := ihRest ih.2 h
        exact ⟨ornament, inner, hornament, List.mem_append_right _ hinner, hline⟩

/-- Lines beneath an entry, and the lines of its siblings after it, come apart in one way. -/
theorem append_entryLines_inj {indent : String} {isLast : Bool} {entry other : Node}
    {rest last : List Node}
    (h : linesBelow (indent ++ deeper isLast) entry ++ entryLines indent rest =
      linesBelow (indent ++ deeper isLast) other ++ entryLines indent last) :
    linesBelow (indent ++ deeper isLast) entry = linesBelow (indent ++ deeper isLast) other ∧
      entryLines indent rest = entryLines indent last := by
  have inside (node : Node) : ∀ line ∈ linesBelow (indent ++ deeper isLast) node,
      ∃ text, line = indent ++ deeper isLast ++ text := by
    intro line hline
    obtain ⟨ornament, inner, -, -, rfl⟩ := of_mem_linesBelow hline
    exact ⟨ornament ++ nodeLine inner, String.append_assoc⟩
  have boundary (siblings : List Node) : ∀ line ∈ (entryLines indent siblings).head?,
      ¬∃ text, line = indent ++ deeper isLast ++ text := by
    intro line hline
    cases siblings with
    | nil => cases hline
    | cons first siblings =>
      obtain rfl := Option.some.inj hline
      rintro ⟨text, htext⟩
      -- at the same column, one has the mark of an entry and the other what stands below a mark
      rw [String.append_assoc, String.append_assoc, String.append_right_inj] at htext
      have hlength : (branch siblings.isEmpty).length = (deeper isLast).length := by
        rw [length_branch, length_deeper]
      exact branch_ne_deeper _ _ (append_inj_of_length_left hlength htext).1
  exact append_inj_of_boundary (inside entry) (boundary rest) (inside other) (boundary last) h

/-- A line that one tree has for a link stands for no link to another target in the other tree. -/
def LinksApart (t u : Node) : Prop :=
  ∀ a ∈ t.preorder, ∀ b ∈ u.preorder, nodeLine a = nodeLine b → a.target? = b.target?

theorem LinksApart.entry {t u entry other : Node} (h : LinksApart t u) (hentry : entry ∈ t.entries)
    (hother : other ∈ u.entries) : LinksApart entry other :=
  fun a ha b hb => h a (Node.preorder_subset hentry ha) b (Node.preorder_subset hother hb)

/-- Siblings are read back from their lines if each of them is. -/
theorem entries_eq_of_entryLines {indent : String} {entries others : List Node}
    (each : ∀ entry ∈ entries, ∀ other ∈ others, ∀ indent, nodeLine entry = nodeLine other →
      linesBelow indent entry = linesBelow indent other → entry = other)
    (h : entryLines indent entries = entryLines indent others) : entries = others := by
  induction entries generalizing others with
  | nil =>
    cases others with
    | nil => rfl
    | cons other last => cases h
  | cons entry rest ih =>
    cases others with
    | nil => cases h
    | cons other last =>
      rw [entryLines_cons, entryLines_cons, List.cons.injEq] at h
      obtain ⟨hline, hlines⟩ := h
      rw [String.append_assoc, String.append_assoc, String.append_right_inj] at hline
      have hlength : (branch rest.isEmpty).length = (branch last.isEmpty).length := by
        rw [length_branch, length_branch]
      obtain ⟨hbranch, hline⟩ := append_inj_of_length_left hlength hline
      -- equal marks tell that both are the last entry or neither is
      rw [branch_injective _ _ hbranch] at hlines
      obtain ⟨hbelow, hrest⟩ := append_entryLines_inj hlines
      have hentry := each entry List.mem_cons_self other List.mem_cons_self _ hline hbelow
      have hsiblings : rest = last := ih (fun entry hmem other hmem' =>
        each entry (List.mem_cons_of_mem _ hmem) other (List.mem_cons_of_mem _ hmem')) hrest
      rw [hentry, hsiblings]

/-- A node is read back from its line and those beneath it. -/
theorem eq_of_linesBelow {t u : Node} {indent : String} (apart : LinksApart t u)
    (hline : nodeLine t = nodeLine u) (hbelow : linesBelow indent t = linesBelow indent u) :
    t = u := by
  induction t using node_induction generalizing u indent with
  | file name hash size =>
    cases nodeLine_eq_iff.mp hline with
    | file => rfl
  | directory name hash entries ih =>
    cases nodeLine_eq_iff.mp hline with
    | @directory _ _ _ others length_eq =>
      have hentries : entries = others := entries_eq_of_entryLines
        (fun entry hentry other hother _ => ih entry hentry (apart.entry hentry hother)) hbelow
      rw [hentries]
  | link name hash target =>
    have htarget := apart _ (Node.self_mem_preorder _) _ (Node.self_mem_preorder _) hline
    cases nodeLine_eq_iff.mp hline with
    | link _ text_eq =>
      obtain rfl := Option.some.inj htarget
      rw [String.append_left_inj, String.append_left_inj] at text_eq
      rw [text_eq]

/-- No name and no target in a tree has a line feed. -/
def Unbroken (tree : Node) : Prop :=
  ∀ node ∈ tree.preorder, OneLine node.name ∧ ∀ target ∈ node.target?, OneLine target

instance (tree : Node) : Decidable (Unbroken tree) :=
  inferInstanceAs (Decidable (∀ node ∈ tree.preorder,
    OneLine node.name ∧ ∀ target ∈ node.target?, OneLine target))

/-- The targets of the links in a tree. -/
def targets (tree : Node) : List String := tree.preorder.filterMap Node.target?

theorem mem_targets {tree : Node} {target : String} :
    target ∈ targets tree ↔ ∃ node ∈ tree.preorder, node.target? = some target :=
  List.mem_filterMap

theorem oneLine_summaryLine (s : Statistics) : OneLine (summaryLine s) := by
  have directories :=
    (oneLine_toString s.directories.toNat).append (t := " directories, ") (by decide)
  have files :=
    (directories.append (oneLine_toString s.files.toNat)).append (t := " files, ") (by decide)
  have links :=
    (files.append (oneLine_toString s.links.toNat)).append (t := " symlinks, ") (by decide)
  exact (links.append (oneLine_toString s.totalSize.toNat)).append (by decide)

/-- The lines of a drawing are lines. -/
theorem oneLine_of_mem_lines {tree : Node} (unbroken : Unbroken tree) :
    ∀ line ∈ lines tree, OneLine line := by
  have ofNode : ∀ node ∈ tree.preorder, OneLine (nodeLine node) := fun node hnode =>
    oneLine_nodeLine (unbroken node hnode).1 (unbroken node hnode).2
  intro line hline
  rw [lines, List.mem_cons, List.mem_append] at hline
  rcases hline with rfl | hline | hline
  · exact ofNode tree tree.self_mem_preorder
  · obtain ⟨ornament, inner, hornament, hinner, rfl⟩ := of_mem_linesBelow hline
    exact (OneLine.append (by decide) hornament).append (ofNode inner hinner)
  · rw [List.mem_cons, List.mem_singleton] at hline
    rcases hline with rfl | rfl
    · decide
    · exact oneLine_summaryLine _

theorem lines_eq_of_drawing_eq {t u : Node} (unbrokenT : Unbroken t) (unbrokenU : Unbroken u)
    (h : drawing t = drawing u) : lines t = lines u := by
  have split {tree : Node} (unbroken : Unbroken tree) :
      (drawing tree).toList.splitOn '\n' = (lines tree).map String.toList := by
    rw [drawing, String.toList_intercalate]
    refine List.splitOn_intercalate '\n' ?_ (List.cons_ne_nil _ _)
    exact List.forall_mem_map.mpr (oneLine_of_mem_lines unbroken)
  have hlists := split unbrokenT
  rw [h, split unbrokenU] at hlists
  exact (List.map_injective_iff.mpr (fun _ _ => String.toList_inj.mp) hlists).symm

/-- The digest of a link's target tells it apart from other links on the same line. -/
theorem linksApart_of_collisionFree {t u : Node} (wellFormedT : WellFormed t)
    (wellFormedU : WellFormed u) (free : CollisionFree ((targets t ++ targets u).map utf8)) :
    LinksApart t u := by
  intro a ha b hb hline
  cases nodeLine_eq_iff.mp hline with
  | file => rfl
  | directory => rfl
  | @link hash name other target last text_eq =>
    have htarget : utf8 target ∈ (targets t ++ targets u).map utf8 := List.mem_map_of_mem
      (List.mem_append_left _ (mem_targets.mpr ⟨_, ha, rfl⟩))
    have hlast : utf8 last ∈ (targets t ++ targets u).map utf8 := List.mem_map_of_mem
      (List.mem_append_right _ (mem_targets.mpr ⟨_, hb, rfl⟩))
    have hhash : linkHash target = linkHash last :=
      (wellFormed_of_mem_preorder wellFormedT ha).hash_link.symm.trans
        (wellFormed_of_mem_preorder wellFormedU hb).hash_link
    exact congrArg some (utf8_injective (free _ htarget _ hlast hhash))

/-- Trees that the constructors make are drawn differently, whatever their names and targets look
like, if these have no line feeds and the digests of the targets differ. -/
theorem drawing_injective {t u : Node} (constructedT : Constructed t) (constructedU : Constructed u)
    (unbrokenT : Unbroken t) (unbrokenU : Unbroken u)
    (free : CollisionFree ((targets t ++ targets u).map utf8)) (h : drawing t = drawing u) :
    t = u := by
  have hlines := lines_eq_of_drawing_eq unbrokenT unbrokenU h
  rw [lines, lines, List.cons.injEq] at hlines
  obtain ⟨hline, hbelow⟩ := hlines
  exact eq_of_linesBelow
    (linksApart_of_collisionFree constructedT.wellFormed constructedU.wellFormed free) hline
    (List.append_inj' hbelow (by simp only [List.length_cons, List.length_nil])).1

/-- Links that share out one text in two ways, and names that look like marks and lines. -/
def crossedEntries : List Node :=
  [.ofTarget "x -> y" "z", .ofTarget "x" "y -> z",
    .ofEntries "│   └── d [file, 3 bytes] 0x" [.file "x -> z [symbolic] " (.ofByte 1) 7]]

theorem constructed_crossedEntries : ∀ entry ∈ crossedEntries, Constructed entry := by
  rw [crossedEntries, List.forall_mem_cons, List.forall_mem_cons, List.forall_mem_singleton]
  exact ⟨.link .., .link .., .directory _ _ (List.forall_mem_singleton.mpr (.file ..))⟩

theorem crossedEntries_drawn_alike :
    Constructed (.ofEntries "." crossedEntries) ∧
      Constructed (.ofEntries "." crossedEntries.reverse) ∧
      Unbroken (.ofEntries "." crossedEntries) ∧
      Unbroken (.ofEntries "." crossedEntries.reverse) ∧
      CollisionFree ((targets (.ofEntries "." crossedEntries) ++
        targets (.ofEntries "." crossedEntries.reverse)).map utf8) ∧
      drawing (.ofEntries "." crossedEntries) = drawing (.ofEntries "." crossedEntries.reverse) ∧
      Node.ofEntries "." crossedEntries = .ofEntries "." crossedEntries.reverse := by
  have constructedT : Constructed (.ofEntries "." crossedEntries) :=
    .directory _ _ constructed_crossedEntries
  have constructedU : Constructed (.ofEntries "." crossedEntries.reverse) :=
    .directory _ _ fun entry hentry => constructed_crossedEntries entry (List.mem_reverse.mp hentry)
  have unbrokenT : Unbroken (.ofEntries "." crossedEntries) := by decide +kernel
  have unbrokenU : Unbroken (.ofEntries "." crossedEntries.reverse) := by decide +kernel
  have apart : CollisionFree [utf8 "z", utf8 "y -> z"] := collisionFree_of_nodup (by decide +kernel)
  have free : CollisionFree ((targets (.ofEntries "." crossedEntries) ++
      targets (.ofEntries "." crossedEntries.reverse)).map utf8) := apart.subset (by decide +kernel)
  have same : drawing (.ofEntries "." crossedEntries) =
      drawing (.ofEntries "." crossedEntries.reverse) := by decide +kernel
  exact ⟨constructedT, constructedU, unbrokenT, unbrokenU, free, same,
    drawing_injective constructedT constructedU unbrokenT unbrokenU free same⟩

end HashedTree.DrawnTrees
