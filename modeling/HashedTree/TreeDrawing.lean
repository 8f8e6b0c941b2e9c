import HashedTree.NodeStatistics

/-! # Trees as text for a terminal -/
namespace HashedTree.TreeDrawing

def nodeLine : Node → String
  | .file name hash size => name ++ " [file, " ++ toString size.toNat ++ " bytes] " ++ hash.toHex
  | .link name hash target => name ++ " -> " ++ target ++ " [symbolic] " ++ hash.toHex
  | .directory name hash entries =>
    name ++ " [directory, " ++ toString entries.length ++ " entries] " ++ hash.toHex

mutual
/-- The lines of everything beneath a node, behind the indentation of its depth. -/
def linesBelow (indent : String) : Node → List String
  | .directory _ _ entries => entryLines indent entries
  | .file .. | .link .. => []

/-- The lines of sibling entries; the last one closes the branch. -/
def entryLines (indent : String) : List Node → List String
  | [] => []
  | entry :: rest =>
    let branch := if rest.isEmpty then "└── " else "├── "
    let deeper := if rest.isEmpty then "    " else "│   "
    (indent ++ branch ++ nodeLine entry) ::
      (linesBelow (indent ++ deeper) entry ++ entryLines indent rest)
end

def summaryLine (s : Statistics) : String :=
  toString s.directories.toNat ++ " directories, " ++ toString s.files.toNat ++ " files, " ++
    toString s.links.toNat ++ " symlinks, " ++ toString s.totalSize.toNat ++ " bytes"

/-- All lines of a drawing: the tree, an empty line and the summary. -/
def lines (root : Node) : List String :=
  nodeLine root :: (linesBelow "" root ++ ["", summaryLine root.statistics])

def drawing (root : Node) : String := String.intercalate "\n" (lines root)

end HashedTree.TreeDrawing
