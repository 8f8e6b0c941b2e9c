import HashedTree.JsonDocument
import HashedTree.Node

/-! # How many nodes of each kind a tree has, and how many bytes its files -/
namespace HashedTree

/-- Counts of nodes and the sum of the file sizes, as words of 64 bits. -/
structure Statistics where
  files : UInt64
  directories : UInt64
  links : UInt64
  totalSize : UInt64
  deriving DecidableEq, Repr

namespace Statistics

def none : Statistics := ⟨0, 0, 0, 0⟩

def count (s : Statistics) : Node → Statistics
  | .file _ _ size => { s with files := s.files + 1, totalSize := s.totalSize + size }
  | .directory .. => { s with directories := s.directories + 1 }
  | .link .. => { s with links := s.links + 1 }

def nodeCount (s : Statistics) : UInt64 := s.files + s.directories + s.links

def toJson (s : Statistics) : Json :=
  .object [("files", .integer s.files.toNat), ("directories", .integer s.directories.toNat),
    ("symlinks", .integer s.links.toNat), ("total_size", .integer s.totalSize.toNat)]

def document (s : Statistics) : String := String.ofList (s.toJson.text .compact)

end Statistics

def Node.statistics (node : Node) : Statistics := node.preorder.foldl Statistics.count .none

end HashedTree
