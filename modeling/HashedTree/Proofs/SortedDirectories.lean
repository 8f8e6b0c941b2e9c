import HashedTree.Proofs.WellFormedTrees

/-!
# What a directory keeps of the nodes it is made of

Sorting keeps all nodes and, among nodes of one name, their order, and nothing else: a directory is
determined by the lists of its nodes of each name. Where no name is repeated, these lists do not
depend on the order in which the nodes are given.
-/
namespace HashedTree.SortedDirectories
open Utf8Text NameOrder WellFormedTrees

variable {node other : Node} {nodes others : List Node}

/-- The nodes of one name, in their order. -/
def named (name : String) (nodes : List Node) : List Node :=
  nodes.filter fun node => node.name = name

@[simp] theorem named_nil (name : String) : named name [] = [] := rfl

theorem named_cons (name : String) (node : Node) (nodes : List Node) :
    named name (node :: nodes) =
      if node.name = name then node :: named name nodes else named name nodes := by
  by_cases h : node.name = name <;> simp [named, h]

theorem named_cons_self (node : Node) (nodes : List Node) :
    named node.name (node :: nodes) = node :: named node.name nodes := by
  rw [named_cons, if_pos rfl]

theorem mem_named {name : String} : node ∈ named name nodes ↔ node ∈ nodes ∧ node.name = name := by
  simp [named, List.mem_filter]

theorem ordered_named (name : String) (nodes : List Node) : Ordered (named name nodes) := by
  refine List.pairwise_of_forall_mem_list fun a ha b hb => ?_
  rw [NoLater, (mem_named.mp ha).2, (mem_named.mp hb).2]
  exact List.le_refl _

/-- Nodes of one name are already in order, so that sorting leaves them where they are to each
other. -/
theorem named_sortByName (name : String) (nodes : List Node) :
    named name (Node.sortByName nodes) = named name nodes := by
  have kept : (named name nodes).Sublist (Node.sortByName nodes) := by
    rw [sortByName_eq_insertionSort]
    exact List.sublist_insertionSort (ordered_named name nodes) List.filter_sublist
  have among : (named name nodes).Sublist (named name (Node.sortByName nodes)) := by
    simpa only [named, List.filter_filter, Bool.and_self] using
      kept.filter fun node => node.name = name
  exact (among.eq_of_length ((sortByName_perm nodes).filter _).length_eq.symm).symm

theorem noLater_of_named_eq (ordered : Ordered (node :: nodes))
    (same : ∀ name, named name (node :: nodes) = named name (other :: others)) :
    NoLater node other := by
  have hother : other ∈ named other.name (node :: nodes) := by
    rw [same, named_cons_self]
    exact List.mem_cons_self
  rcases List.mem_cons.mp (mem_named.mp hother).1 with rfl | hmem
  · exact List.le_refl _
  · exact List.rel_of_pairwise_cons ordered hmem

/-- Lists in order that have the same nodes of each name are the same. -/
theorem eq_of_named_eq (ordered : Ordered nodes) (ordered' : Ordered others)
    (same : ∀ name, named name nodes = named name others) : nodes = others := by
  induction nodes generalizing others with
  | nil =>
    cases others with
    | nil => rfl
    | cons other others => simpa [named_cons_self] using same other.name
  | cons node nodes ih =>
    cases others with
    | nil => simpa [named_cons_self] using same node.name
    | cons other others =>
      have hname : node.name = other.name :=
        utf8_injective (List.le_antisymm (noLater_of_named_eq ordered same)
          (noLater_of_named_eq ordered' fun name => (same name).symm))
      have hfirst := same node.name
      rw [named_cons_self, hname, named_cons_self, List.cons.injEq] at hfirst
      obtain ⟨rfl, -⟩ := hfirst
      have hrest (name : String) : named name nodes = named name others := by
        have hboth := same name
        rw [named_cons, named_cons] at hboth
        split_ifs at hboth
        · exact List.tail_eq_of_cons_eq hboth
        · exact hboth
      rw [ih (List.Pairwise.of_cons ordered) (List.Pairwise.of_cons ordered') hrest]

theorem sortByName_eq_iff : Node.sortByName nodes = Node.sortByName others ↔
    ∀ name, named name nodes = named name others := by
  constructor
  · intro same name
    rw [← named_sortByName, same, named_sortByName]
  · intro same
    refine eq_of_named_eq (ordered_sortByName nodes) (ordered_sortByName others) fun name => ?_
    rw [named_sortByName, same, named_sortByName]

theorem ofEntries_eq_iff {name : String} :
    Node.ofEntries name nodes = .ofEntries name others ↔
      Node.sortByName nodes = Node.sortByName others := by
  constructor
  · exact congrArg Node.entries
  · intro same
    rw [Node.ofEntries, same, Node.ofEntries]

/-- A directory is determined by its name and, for each name, by the list of its nodes of that name.
So it keeps every node once, and nodes of one name in their order; the order of distinct names does
not matter, and a directory made anew of its entries is the same. -/
theorem ofEntries_determined (name : String) (nodes others : List Node) :
    (Node.ofEntries name nodes = .ofEntries name others ↔
        ∀ entryName, nodes.filter (·.name = entryName) = others.filter (·.name = entryName)) ∧
      ((nodes.map Node.name).Nodup → nodes.Perm others →
        (Node.ofEntries name nodes).entries = (Node.ofEntries name others).entries ∧
          (Node.ofEntries name nodes).hash = (Node.ofEntries name others).hash) ∧
      (Node.ofEntries name nodes).entries.Perm nodes ∧
      (∀ entryName, (Node.ofEntries name nodes).entries.filter (·.name = entryName) =
        nodes.filter (·.name = entryName)) ∧
      Node.ofEntries name (Node.ofEntries name nodes).entries = .ofEntries name nodes := by
  refine ⟨ofEntries_eq_iff.trans sortByName_eq_iff, fun distinct perm => ?_, sortByName_perm nodes,
    fun entryName => named_sortByName entryName nodes, ?_⟩
  · have same := ofEntries_of_perm name distinct perm.symm
    exact ⟨congrArg Node.entries same.symm, congrArg Node.hash same.symm⟩
  · exact ofEntries_eq_iff.mpr (sortByName_of_ordered (ordered_sortByName nodes))

def firstEntry : Node := .file "b" (.ofByte 1) 10

def secondEntry : Node := .ofTarget "a" "b"

/-- It has the name of the first entry. -/
def namesake : Node := .file "b" (.ofByte 2) 20

theorem swapped_entries :
    ([firstEntry, secondEntry].map Node.name).Nodup ∧
      [firstEntry, secondEntry].Perm [secondEntry, firstEntry] ∧
      (Node.ofEntries "d" [firstEntry, secondEntry]).entries =
        (Node.ofEntries "d" [secondEntry, firstEntry]).entries ∧
      (Node.ofEntries "d" [firstEntry, secondEntry]).hash =
        (Node.ofEntries "d" [secondEntry, firstEntry]).hash ∧
      Node.ofEntries "d" [firstEntry, namesake] ≠ .ofEntries "d" [namesake, firstEntry] := by
  have distinct : ([firstEntry, secondEntry].map Node.name).Nodup := by decide
  have swapped : [firstEntry, secondEntry].Perm [secondEntry, firstEntry] := .swap _ _ _
  obtain ⟨hentries, hhash⟩ := (ofEntries_determined "d" _ _).2.1 distinct swapped
  refine ⟨distinct, swapped, hentries, hhash, fun same => ?_⟩
  exact absurd ((ofEntries_determined "d" _ _).1.mp same "b") (by decide)

end HashedTree.SortedDirectories
