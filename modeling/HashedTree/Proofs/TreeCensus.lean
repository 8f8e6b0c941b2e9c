import HashedTree.Proofs.WellFormedTrees
import HashedTree.TreeDrawing
import Mathlib

/-!
# Every node counts once

Statistics are gathered node by node in one pass from the top, in words of 64 bits. Against this
stand totals from the bottom up in exact numbers: of a directory by itself and of each of its
entries. If there are fewer nodes than words, and the sizes together fit a word, both agree, and no
addition of the pass goes over. A drawing is a second pass over the same nodes, with one line for
each of them.
-/
namespace HashedTree.TreeCensus
open NameOrder WellFormedTrees TreeDrawing

mutual
/-- What the nodes of a tree weigh together. -/
def total (weigh : Node → Nat) : Node → Nat
  | .file name hash size => weigh (.file name hash size)
  | .directory name hash entries => weigh (.directory name hash entries) + totalAll weigh entries
  | .link name hash target => weigh (.link name hash target)

def totalAll (weigh : Node → Nat) : List Node → Nat
  | [] => 0
  | node :: rest => total weigh node + totalAll weigh rest
end

/-- The bytes of a file by itself; nothing else has any. -/
def bytes (node : Node) : Nat := (node.size?.getD 0).toNat

def ofKind (kind : NodeKind) (node : Node) : Nat := if node.kind = kind then 1 else 0

/-- How many nodes of a kind are counted. -/
def counted (kind : NodeKind) (s : Statistics) : UInt64 :=
  match kind with
  | .file => s.files
  | .directory => s.directories
  | .link => s.links

/-- The statistics of a directory from those of its entries, without an overflow. -/
structure SumsUp (s : Statistics) (parts : List Statistics) : Prop where
  files : s.files.toNat = (parts.map fun part => part.files.toNat).sum
  directories : s.directories.toNat = (parts.map fun part => part.directories.toNat).sum + 1
  links : s.links.toNat = (parts.map fun part => part.links.toNat).sum
  totalSize : s.totalSize.toNat = (parts.map fun part => part.totalSize.toNat).sum

/-- Each node adds its weight to the word. -/
structure Tallies (word : Statistics → UInt64) (weigh : Node → Nat) : Prop where
  start : (word .none).toNat = 0
  step : ∀ s node, (word (s.count node)).toNat = ((word s).toNat + weigh node) % 2 ^ 64

section Totals
variable (weigh : Node → Nat)

theorem totalAll_eq_sum (nodes : List Node) :
    totalAll weigh nodes = (nodes.map (total weigh)).sum := by
  induction nodes with
  | nil => rfl
  | cons node rest ih => rw [totalAll, ih, List.map_cons, List.sum_cons]

theorem total_directory (name : String) (hash : Digest) (entries : List Node) :
    total weigh (.directory name hash entries) =
      weigh (.directory name hash entries) + (entries.map (total weigh)).sum := by
  rw [total, totalAll_eq_sum]

/-- The total is that of all nodes in a row. -/
theorem total_eq_sum (node : Node) : total weigh node = (node.preorder.map weigh).sum := by
  induction node using node_induction with
  | file name hash size => simp [total, Node.preorder]
  | directory name hash entries ih =>
    rw [total_directory, Node.preorder, List.map_cons, List.sum_cons]
    congr 1
    induction entries with
    | nil => rfl
    | cons entry rest ihRest =>
      rw [List.forall_mem_cons] at ih
      rw [Node.preorderAll, List.map_append, List.sum_append, List.map_cons, List.sum_cons, ih.1,
        ihRest ih.2]
  | link name hash target => simp [total, Node.preorder]

theorem total_one_eq_length (node : Node) : total (fun _ => 1) node = node.preorder.length := by
  simp [total_eq_sum]

theorem total_entry_le {name : String} {hash : Digest} {entries : List Node} {entry : Node}
    (hentry : entry ∈ entries) : total weigh entry ≤ total weigh (.directory name hash entries) := by
  rw [total_directory]
  have := List.le_sum_of_mem (List.mem_map_of_mem (f := total weigh) hentry)
  omega

theorem total_kinds (node : Node) :
    total (ofKind .file) node + total (ofKind .directory) node + total (ofKind .link) node =
      total (fun _ => 1) node := by
  simp only [total_eq_sum, ← List.sum_map_add]
  congr 1
  apply List.map_congr_left
  intro node _
  cases node <;> rfl

theorem total_ofKind_le (kind : NodeKind) (node : Node) :
    total (ofKind kind) node ≤ total (fun _ => 1) node := by
  rw [← total_kinds]
  cases kind <;> omega

end Totals

theorem tallies_counted (kind : NodeKind) : Tallies (counted kind) (ofKind kind) where
  start := by cases kind <;> rfl
  step s node := by
    have kept : (counted kind s).toNat % 2 ^ 64 = (counted kind s).toNat :=
      Nat.mod_eq_of_lt (counted kind s).toNat_lt
    cases node <;> cases kind <;> first | exact UInt64.toNat_add _ _ | exact kept.symm

theorem tallies_totalSize : Tallies Statistics.totalSize bytes where
  start := rfl
  step s node := by
    have kept : s.totalSize.toNat % 2 ^ 64 = s.totalSize.toNat :=
      Nat.mod_eq_of_lt s.totalSize.toNat_lt
    cases node with
    | file name hash size => exact UInt64.toNat_add _ _
    | directory name hash entries => exact kept.symm
    | link name hash target => exact kept.symm

namespace Tallies
variable {word : Statistics → UInt64} {weigh : Node → Nat} (h : Tallies word weigh) {tree : Node}
include h

theorem foldl (s : Statistics) (nodes : List Node) :
    (word (nodes.foldl Statistics.count s)).toNat =
      ((word s).toNat + (nodes.map weigh).sum) % 2 ^ 64 := by
  induction nodes generalizing s with
  | nil => exact (Nat.mod_eq_of_lt (word s).toNat_lt).symm
  | cons node rest ih =>
    rw [List.foldl_cons, ih, h.step, List.map_cons, List.sum_cons, Nat.mod_add_mod, Nat.add_assoc]

theorem statistics (fits : total weigh tree < 2 ^ 64) :
    (word tree.statistics).toNat = total weigh tree := by
  rw [Node.statistics, h.foldl, h.start, Nat.zero_add, ← total_eq_sum, Nat.mod_eq_of_lt fits]

/-- On the way, what is counted so far and the next weight do not go over the whole total. -/
theorem before {earlier later : List Node} {node : Node} (fits : total weigh tree < 2 ^ 64)
    (split : tree.preorder = earlier ++ node :: later) :
    (word (earlier.foldl Statistics.count .none)).toNat + weigh node < 2 ^ 64 := by
  rw [total_eq_sum, split, List.map_append, List.sum_append, List.map_cons, List.sum_cons] at fits
  rw [h.foldl, h.start, Nat.zero_add, Nat.mod_eq_of_lt (by omega)]
  omega

theorem directory {name : String} {hash : Digest} {entries : List Node}
    (fits : total weigh (.directory name hash entries) < 2 ^ 64) :
    (word (Node.directory name hash entries).statistics).toNat =
      weigh (.directory name hash entries) +
        ((entries.map Node.statistics).map fun part => (word part).toNat).sum := by
  rw [h.statistics fits, total_directory, List.map_map]
  congr 2
  apply List.map_congr_left
  intro entry hentry
  exact (h.statistics (Nat.lt_of_le_of_lt (total_entry_le weigh hentry) fits)).symm

end Tallies

theorem SumsUp.of_perm {s : Statistics} {parts others : List Statistics} (h : SumsUp s parts)
    (perm : others.Perm parts) : SumsUp s others where
  files := h.files.trans (perm.map _).sum_eq.symm
  directories := h.directories.trans (congrArg (· + 1) (perm.map _).sum_eq.symm)
  links := h.links.trans (perm.map _).sum_eq.symm
  totalSize := h.totalSize.trans (perm.map _).sum_eq.symm

section Tree
variable {tree : Node} (few : total (fun _ => 1) tree < 2 ^ 64)
include few

theorem counted_statistics (kind : NodeKind) :
    (counted kind tree.statistics).toNat = total (ofKind kind) tree :=
  (tallies_counted kind).statistics (Nat.lt_of_le_of_lt (total_ofKind_le kind tree) few)

theorem counted_directory {name : String} {hash : Digest} {entries : List Node}
    (isDirectory : tree = .directory name hash entries) (kind : NodeKind) :
    (counted kind tree.statistics).toNat = ofKind kind tree +
      ((entries.map Node.statistics).map fun part => (counted kind part).toNat).sum := by
  subst isDirectory
  exact (tallies_counted kind).directory (Nat.lt_of_le_of_lt (total_ofKind_le kind _) few)

theorem sumsUp_directory {name : String} {hash : Digest} {entries : List Node}
    (isDirectory : tree = .directory name hash entries) (fits : total bytes tree < 2 ^ 64) :
    SumsUp tree.statistics (entries.map Node.statistics) := by
  have kinds := counted_directory few isDirectory
  subst isDirectory
  exact {
    files := (kinds .file).trans (Nat.zero_add _)
    directories := (kinds .directory).trans (Nat.add_comm _ _)
    links := (kinds .link).trans (Nat.zero_add _)
    totalSize := (tallies_totalSize.directory fits).trans (Nat.zero_add _) }

/-- Neither addition of the three counts goes over. -/
theorem nodeCount_statistics :
    tree.statistics.files.toNat + tree.statistics.directories.toNat < 2 ^ 64 ∧
      tree.statistics.files.toNat + tree.statistics.directories.toNat +
        tree.statistics.links.toNat < 2 ^ 64 ∧
      tree.statistics.nodeCount.toNat = total (fun _ => 1) tree := by
  have files : tree.statistics.files.toNat = _ := counted_statistics few .file
  have directories : tree.statistics.directories.toNat = _ := counted_statistics few .directory
  have links : tree.statistics.links.toNat = _ := counted_statistics few .link
  have kinds := total_kinds tree
  rw [Statistics.nodeCount, UInt64.toNat_add, UInt64.toNat_add, files, directories, links,
    Nat.mod_eq_of_lt (a := total (ofKind .file) tree + _) (by omega), Nat.mod_eq_of_lt (by omega)]
  omega

end Tree

theorem length_entryLines {entries : List Node}
    (below : ∀ entry ∈ entries, ∀ indent,
      (linesBelow indent entry).length + 1 = entry.preorder.length) (indent : String) :
    (entryLines indent entries).length = (Node.preorderAll entries).length := by
  induction entries with
  | nil => rfl
  | cons entry rest ih =>
    rw [List.forall_mem_cons] at below
    have first := below.1 (indent ++ if rest.isEmpty then "    " else "│   ")
    simp only [entryLines, Node.preorderAll, List.length_cons, List.length_append, ih below.2]
    omega

/-- Beneath a node, a drawing has one line for each node but the top one. -/
theorem length_linesBelow (node : Node) :
    ∀ indent, (linesBelow indent node).length + 1 = node.preorder.length := by
  induction node using node_induction with
  | file name hash size => simp [linesBelow, Node.preorder]
  | directory name hash entries ih =>
    intro indent
    rw [linesBelow, length_entryLines ih, Node.preorder, List.length_cons]
  | link name hash target => simp [linesBelow, Node.preorder]

theorem length_lines (tree : Node) : (lines tree).length = tree.preorder.length + 2 := by
  have := length_linesBelow tree ""
  simp only [lines, List.length_cons, List.length_append, List.length_nil]
  omega

/-- If there are fewer nodes than words of 64 bits, and the sizes of all files fit a word together,
every addition of the pass over a tree does. The statistics are the numbers of nodes of each kind,
the top one among them, and the sum of the sizes; those of a directory are the sum of those of its
entries, in whatever order they are given, and one directory. A drawing has a line for each node
that is counted and two more. -/
theorem statistics_exact (tree : Node) (few : total (fun _ => 1) tree < 2 ^ 64)
    (fits : total bytes tree < 2 ^ 64) :
    (∀ before node after, tree.preorder = before ++ node :: after →
      (∀ kind, (counted kind (before.foldl Statistics.count .none)).toNat + ofKind kind node <
        2 ^ 64) ∧
      (before.foldl Statistics.count .none).totalSize.toNat + bytes node < 2 ^ 64) ∧
    tree.statistics.files.toNat = total (ofKind .file) tree ∧
    tree.statistics.directories.toNat = total (ofKind .directory) tree ∧
    tree.statistics.links.toNat = total (ofKind .link) tree ∧
    tree.statistics.totalSize.toNat = total bytes tree ∧
    (∀ name hash entries (given : List Node), tree = .directory name hash entries →
      given.Perm entries → SumsUp tree.statistics (given.map Node.statistics)) ∧
    (∀ name given, tree = .ofEntries name given →
      SumsUp tree.statistics (given.map Node.statistics)) ∧
    (tree.statistics.files.toNat + tree.statistics.directories.toNat < 2 ^ 64 ∧
      tree.statistics.files.toNat + tree.statistics.directories.toNat +
        tree.statistics.links.toNat < 2 ^ 64 ∧
      tree.statistics.nodeCount.toNat = total (fun _ => 1) tree) ∧
    (lines tree).length = tree.statistics.nodeCount.toNat + 2 := by
  have inAnyOrder : ∀ name hash entries (given : List Node), tree = .directory name hash entries →
      given.Perm entries → SumsUp tree.statistics (given.map Node.statistics) := by
    intro name hash entries given isDirectory perm
    exact (sumsUp_directory few isDirectory fits).of_perm (perm.map _)
  refine ⟨?_, counted_statistics few .file, counted_statistics few .directory,
    counted_statistics few .link, tallies_totalSize.statistics fits, inAnyOrder, ?_,
    nodeCount_statistics few, ?_⟩
  · intro before node after split
    refine ⟨?_, tallies_totalSize.before fits split⟩
    intro kind
    exact (tallies_counted kind).before (Nat.lt_of_le_of_lt (total_ofKind_le kind tree) few) split
  · intro name given htree
    exact inAnyOrder name _ _ given htree (sortByName_perm given).symm
  · rw [length_lines, (nodeCount_statistics few).2.2, total_one_eq_length]

/-- The sizes of its two files come to the largest word. -/
def fullTree : Node :=
  .ofEntries "full" [.file "b" .zero (2 ^ 63), .ofEntries "a" [.file "c" .zero (2 ^ 63 - 1)]]

theorem fullTree_counted :
    total (fun _ => 1) fullTree < 2 ^ 64 ∧ total bytes fullTree < 2 ^ 64 ∧
      fullTree.statistics.files.toNat = 2 ∧ fullTree.statistics.directories.toNat = 2 ∧
      fullTree.statistics.links.toNat = 0 ∧ fullTree.statistics.totalSize.toNat = 2 ^ 64 - 1 ∧
      (∀ before node after, fullTree.preorder = before ++ node :: after →
        (before.foldl Statistics.count .none).totalSize.toNat + bytes node < 2 ^ 64) ∧
      (lines fullTree).length = 6 := by
  have few : total (fun _ => 1) fullTree = 4 := by decide +kernel
  have sizes : total bytes fullTree = 2 ^ 64 - 1 := by decide +kernel
  have fitsCount : total (fun _ => 1) fullTree < 2 ^ 64 := by omega
  have fits : total bytes fullTree < 2 ^ 64 := by omega
  obtain ⟨onTheWay, files, directories, links, totalSize, -, -, ⟨-, -, nodes⟩, drawn⟩ :=
    statistics_exact fullTree fitsCount fits
  refine ⟨fitsCount, fits, files, directories, links, totalSize.trans sizes, ?_, ?_⟩
  · intro before node after split
    exact (onTheWay before node after split).2
  · rw [drawn, nodes, few]

end HashedTree.TreeCensus
