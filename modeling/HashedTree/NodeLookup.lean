import HashedTree.Node

/-! # Finding entries by name and descendants by path -/
namespace HashedTree.NodeLookup
open Utf8Text

/-- Halves the entries, which must be in the order of their names, as often as allowed. -/
def searchWithin (name : String) : Nat → List Node → Option Node
  | 0, _ => none
  | attempts + 1, entries =>
    let half := entries.length / 2
    match entries.drop half with
    | [] => none
    | middle :: above =>
      if middle.name = name then some middle
      else if utf8 middle.name < utf8 name then searchWithin name attempts above
      else searchWithin name attempts (entries.take half)

theorem searchWithin_nil (name : String) (attempts : Nat) :
    searchWithin name attempts [] = none := by
  cases attempts <;> rfl

/-- One step looks at the entry in the middle and goes on above or below it. -/
theorem searchWithin_step (name : String) (attempts : Nat) {entries : List Node}
    (nonempty : entries ≠ []) :
    ∃ below middle above, entries = below ++ middle :: above ∧
      searchWithin name (attempts + 1) entries =
        if middle.name = name then some middle
        else if utf8 middle.name < utf8 name then searchWithin name attempts above
        else searchWithin name attempts below := by
  have hpos : 0 < entries.length := List.length_pos_iff.mpr nonempty
  cases hdrop : entries.drop (entries.length / 2) with
  | nil =>
    have hle := List.drop_eq_nil_iff.mp hdrop
    omega
  | cons middle above =>
    refine ⟨entries.take (entries.length / 2), middle, above, ?_, ?_⟩
    · rw [← hdrop, List.take_append_drop]
    · simp only [searchWithin, hdrop]

def components : List Char → List (List Char)
  | [] => [[]]
  | c :: rest =>
    if c = '/' then [] :: components rest
    else
      match components rest with
      | [] => [[c]]
      | first :: others => (c :: first) :: others

end HashedTree.NodeLookup

namespace HashedTree.Node
open NodeLookup

def search (node : Node) (name : String) : Option Node :=
  searchWithin name (node.entries.length + 1) node.entries

/-- The descendant that is reached by one entry name after the other. Empty components and `.`
stay where they are, and `..` leads nowhere. -/
def follow : Node → List String → Option Node
  | node, [] => some node
  | node, component :: rest =>
    if component = "" ∨ component = "." then follow node rest
    else if component = ".." then none
    else (node.search component).bind (follow · rest)

def locate (node : Node) (path : String) : Option Node :=
  node.follow ((components path.toList).map String.ofList)

end HashedTree.Node
