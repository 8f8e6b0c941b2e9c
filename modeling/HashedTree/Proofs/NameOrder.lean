import HashedTree.Node
import Mathlib.Data.List.Forall2
import Mathlib.Data.List.Sort

/-!
# The order of entries by their names

Names are compared as byte strings, so two names that neither precedes are the same name. Sorting
nodes is the library's insertion sort under this comparison; from that follow all facts about
`Node.sortByName` that other modules use. Lists of pairs are sorted by their first parts in the
same way, which makes it possible to sort before or after the nodes are made.
-/
namespace HashedTree.NameOrder
open ByteBlocks Utf8Text

variable {α : Type}

/-- The first node does not come after the second one. -/
def NoLater (a b : Node) : Prop := utf8 a.name ≤ utf8 b.name

instance : DecidableRel NoLater :=
  fun a b => inferInstanceAs (Decidable (utf8 a.name ≤ utf8 b.name))

instance : Std.Total NoLater := ⟨fun a b => List.le_total (utf8 a.name) (utf8 b.name)⟩

instance : IsTrans Node NoLater := ⟨fun _ _ _ => List.le_trans⟩

/-- The nodes stand in the order of their names; a name may be repeated. -/
def Ordered (nodes : List Node) : Prop := nodes.Pairwise NoLater

/-- The nodes stand in the order of their names, and no name is repeated. -/
def Ascending (nodes : List Node) : Prop := nodes.Pairwise fun a b => utf8 a.name < utf8 b.name

theorem ascending_of_nodup {nodes : List Node} (h : Ordered nodes)
    (distinct : (nodes.map Node.name).Nodup) : Ascending nodes := by
  have hne : nodes.Pairwise fun a b => a.name ≠ b.name := by
    simpa [List.Nodup, List.pairwise_map] using distinct
  refine (h.and hne).imp ?_
  rintro a b ⟨hle, hne⟩
  rcases List.le_iff_lt_or_eq.mp hle with hlt | heq
  · exact hlt
  · exact absurd (utf8_injective heq) hne

private theorem insertByName_eq_orderedInsert (node : Node) (nodes : List Node) :
    Node.insertByName node nodes = nodes.orderedInsert NoLater node := by
  induction nodes with
  | nil => rfl
  | cons other rest ih =>
    simp only [Node.insertByName, List.orderedInsert_cons, Node.nameLe, decide_eq_true_eq, ih]
    rfl

theorem sortByName_eq_insertionSort (nodes : List Node) :
    Node.sortByName nodes = nodes.insertionSort NoLater := by
  induction nodes with
  | nil => rfl
  | cons node rest ih =>
    rw [List.insertionSort_cons, ← ih, ← insertByName_eq_orderedInsert]
    rfl

theorem sortByName_perm (nodes : List Node) : (Node.sortByName nodes).Perm nodes := by
  rw [sortByName_eq_insertionSort]
  exact List.perm_insertionSort NoLater nodes

theorem ordered_sortByName (nodes : List Node) : Ordered (Node.sortByName nodes) := by
  rw [sortByName_eq_insertionSort]
  exact List.pairwise_insertionSort NoLater nodes

theorem sortByName_of_ordered {nodes : List Node} (h : Ordered nodes) :
    Node.sortByName nodes = nodes := by
  rw [sortByName_eq_insertionSort]
  exact List.Pairwise.insertionSort_eq h

@[simp] theorem mem_sortByName {node : Node} {nodes : List Node} :
    node ∈ Node.sortByName nodes ↔ node ∈ nodes := (sortByName_perm nodes).mem_iff

theorem ascending_sortByName {nodes : List Node} (distinct : (nodes.map Node.name).Nodup) :
    Ascending (Node.sortByName nodes) :=
  ascending_of_nodup (ordered_sortByName nodes)
    (((sortByName_perm nodes).map Node.name).nodup_iff.mpr distinct)

/-- Nodes of distinct names are sorted in one way only, in whatever order they come. -/
theorem sortByName_eq_of_mem_iff {nodes others : List Node} (distinct : (nodes.map Node.name).Nodup)
    (distinct' : (others.map Node.name).Nodup) (h : ∀ node, node ∈ nodes ↔ node ∈ others) :
    Node.sortByName nodes = Node.sortByName others := by
  have hperm : (Node.sortByName nodes).Perm (Node.sortByName others) :=
    (sortByName_perm nodes).trans
      (((List.perm_ext_iff_of_nodup distinct.of_map distinct'.of_map).mpr h).trans
        (sortByName_perm others).symm)
  exact List.Perm.eq_of_pairwise (fun _ _ _ _ hab hba => absurd hab (List.lt_asymm hba))
    (ascending_sortByName distinct) (ascending_sortByName distinct') hperm

/-- Nodes that take their names from entries of distinct names have distinct names. -/
theorem nodup_names {R : Bytes × α → Node → Prop} {entries : List (Bytes × α)} {nodes : List Node}
    (named : ∀ {entry node}, R entry node → utf8 node.name = entry.1)
    (h : List.Forall₂ R entries nodes) (distinct : (entries.map Prod.fst).Nodup) :
    (nodes.map Node.name).Nodup := by
  have hnames : (nodes.map Node.name).map utf8 = entries.map Prod.fst := by
    induction h with
    | nil => rfl
    | cons hentry _ ih =>
      rw [List.map_cons, List.nodup_cons] at distinct
      rw [List.map_cons, List.map_cons, List.map_cons, named hentry, ih distinct.2]
  exact List.Nodup.of_map utf8 (hnames ▸ distinct)

/-- Pairs in the order of their first parts; pairs of one first part keep their order. -/
def sortByKey (pairs : List (Bytes × α)) : List (Bytes × α) :=
  pairs.insertionSort fun p q => p.1 ≤ q.1

theorem map_sortByKey {β : Type} (f : α → β) (pairs : List (Bytes × α)) :
    (sortByKey pairs).map (Prod.map id f) = sortByKey (pairs.map (Prod.map id f)) :=
  List.map_insertionSort _ _ _ _ fun _ _ _ _ => Iff.rfl

/-- Sorting nodes is sorting their names together with whatever belongs to them. -/
theorem map_sortByName (f : Node → α) (nodes : List Node) :
    (Node.sortByName nodes).map (fun node => (utf8 node.name, f node)) =
      sortByKey (nodes.map fun node => (utf8 node.name, f node)) := by
  rw [sortByName_eq_insertionSort]
  exact List.map_insertionSort _ _ _ _ fun _ _ _ _ => Iff.rfl

end HashedTree.NameOrder
