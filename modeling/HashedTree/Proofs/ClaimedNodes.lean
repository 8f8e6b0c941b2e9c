import HashedTree.NodeDocument
import HashedTree.Proofs.DigestText
import HashedTree.Proofs.Outcomes
import HashedTree.Proofs.WellFormedTrees

/-!
# A document claims the node that it was made of

The tag comes first and stands alone, the fields of the kind come back from the members, and what is
left out is what a missing member means. This holds of every node, whatever its digests and the
order of its entries.
-/
namespace HashedTree.ClaimedNodes
open NodeDocument DigestText Outcomes WellFormedTrees

variable {top : Bool}

theorem kindOfTag_word (kind : NodeKind) : kindOfTag top (.string kind.word) = .ok kind := by
  cases kind <;> rfl

theorem kindOfMembers_of_ne {members : List (String × Json)} (kind : NodeKind)
    (hnames : ∀ member ∈ members, member.1 ≠ "type") :
    kindOfMembers top (some kind) members = .ok kind := by
  induction members with
  | nil => rfl
  | cons member members ih =>
    rw [List.forall_mem_cons] at hnames
    rw [kindOfMembers, if_neg hnames.1, ih hnames.2]

theorem kindOfMembers_tagged {members : List (String × Json)} (kind : NodeKind)
    (hnames : ∀ member ∈ members, member.1 ≠ "type") :
    kindOfMembers top none (("type", .string kind.word) :: members) = .ok kind := by
  rw [kindOfMembers, if_pos rfl, Option.isSome_none, if_neg Bool.false_ne_true, kindOfTag_word,
    ok_bind, kindOfMembers_of_ne kind hnames]

/-- The member that only nodes of one kind have. -/
def ownMembers : Node → List (String × Json)
  | .file _ _ size => [("size", .integer size.toNat)]
  | .directory _ _ entries =>
    if entries.isEmpty then [] else [("entries", .array (toJsonAll entries))]
  | .link _ _ target => [("link", .string target)]

/-- The members of a node behind its tag. -/
def untagged (node : Node) : List (String × Json) :=
  ("name", .string node.name) ::
    ((if node.hash.isZero then [] else [("hash", node.hash.toJson)]) ++ ownMembers node)

theorem toJson_eq (node : Node) :
    toJson node = .object (("type", .string node.kind.word) :: untagged node) := by
  cases node <;> rfl

theorem toJsonAll_eq_map (nodes : List Node) : toJsonAll nodes = nodes.map toJson := by
  induction nodes with
  | nil => rfl
  | cons node nodes ih => rw [toJsonAll, ih, List.map_cons]

theorem forall_untagged {P : String × Json → Prop} {node : Node}
    (name : P ("name", .string node.name)) (hash : P ("hash", node.hash.toJson))
    (own : ∀ member ∈ ownMembers node, P member) : ∀ member ∈ untagged node, P member := by
  rw [untagged, List.forall_mem_cons, List.forall_mem_append]
  refine ⟨name, ?_, own⟩
  by_cases h : node.hash.isZero
  · rw [if_pos h]
    nofun
  · rw [if_neg h]
    exact List.forall_mem_singleton.mpr hash

theorem untagged_ne_type (node : Node) : ∀ member ∈ untagged node, member.1 ≠ "type" := by
  refine forall_untagged (by simp) (by simp) ?_
  cases node with
  | file name hash size => simp [ownMembers]
  | directory name hash entries => cases entries <;> simp [ownMembers]
  | link name hash target => simp [ownMembers]

theorem ofJson_toJson (d : Digest) : Digest.ofJson d.toJson = .ok d := by
  rw [Digest.toJson, Digest.ofJson, ofHex_toHex]

theorem sizeOf_size (size : UInt64) : NodeDocument.sizeOf (.integer size.toNat) = .ok size := by
  rw [NodeDocument.sizeOf, if_neg (by omega), Int.toNat_natCast, UInt64.ofNat_toNat]

/-- The digest that is claimed by a member, or by none. -/
def claimedHash (hash : Digest) : Option Digest := if hash.isZero then none else some hash

theorem getD_claimedHash (hash : Digest) : (claimedHash hash).getD .zero = hash := by
  by_cases h : hash.isZero
  · rw [claimedHash, if_pos h]
    exact (of_decide_eq_true h).symm
  · rw [claimedHash, if_neg h]
    rfl

theorem claimedMembers_untagged (kind : NodeKind) (node : Node) :
    claimedMembers kind {} (("type", .string node.kind.word) :: untagged node) =
      claimedMembers kind { name := some node.name, hash := claimedHash node.hash }
        (ownMembers node) := by
  have htag : claimedMembers kind {} (("type", .string node.kind.word) :: untagged node) =
      claimedMembers kind {} (untagged node) := by
    cases kind <;> rfl
  have hname : claimedMembers kind {} (untagged node) =
      claimedMembers kind { name := some node.name }
        ((if node.hash.isZero then [] else [("hash", node.hash.toJson)]) ++ ownMembers node) := rfl
  rw [htag, hname, claimedHash]
  by_cases h : node.hash.isZero
  · rw [if_pos h, if_pos h, List.nil_append]
  · rw [if_neg h, if_neg h, List.singleton_append]
    cases kind <;> simp [claimedMembers, once, ofJson_toJson]

theorem claimedAll_toJsonAll {nodes : List Node}
    (h : ∀ node ∈ nodes, claimed false (toJson node) = .ok node) :
    claimedAll (toJsonAll nodes) = .ok nodes := by
  induction nodes with
  | nil => rfl
  | cons node nodes ih =>
    rw [List.forall_mem_cons] at h
    rw [toJsonAll, claimedAll, h.1, ok_bind, ih h.2, ok_map]

/-- The fields that the document of a node shows. -/
def shown : Node → Draft
  | .file name hash size =>
    { name := some name, hash := claimedHash hash, size := some size }
  | .directory name hash entries =>
    { name := some name, hash := claimedHash hash,
      entries := if entries.isEmpty then none else some entries }
  | .link name hash target =>
    { name := some name, hash := claimedHash hash, target := some target }

theorem complete_shown (node : Node) : (shown node).complete node.kind = .ok node := by
  cases node with
  | file name hash size => simp [shown, Draft.complete, Node.kind, getD_claimedHash]
  | directory name hash entries =>
    cases entries <;> simp [shown, Draft.complete, Node.kind, getD_claimedHash]
  | link name hash target => simp [shown, Draft.complete, Node.kind, getD_claimedHash]

theorem claimedMembers_ownMembers {node : Node}
    (entries : ∀ entry ∈ node.entries, claimed false (toJson entry) = .ok entry) :
    claimedMembers node.kind { name := some node.name, hash := claimedHash node.hash }
      (ownMembers node) = .ok (shown node) := by
  cases node with
  | file name hash size =>
    simp [Node.kind, Node.name, Node.hash, ownMembers, shown, claimedMembers, once, sizeOf_size]
  | directory name hash nodes =>
    have hall : claimedAll (toJsonAll nodes) = .ok nodes := claimedAll_toJsonAll entries
    cases nodes with
    | nil => rfl
    | cons node nodes =>
      simp [Node.kind, Node.name, Node.hash, ownMembers, shown, claimedMembers, once,
        claimedEntries, hall]
  | link name hash target =>
    simp [Node.kind, Node.name, Node.hash, ownMembers, shown, claimedMembers, once, stringOf]

theorem claimed_of_entries {node : Node}
    (entries : ∀ entry ∈ node.entries, claimed false (toJson entry) = .ok entry) (top : Bool) :
    claimed top (toJson node) = .ok node := by
  rw [toJson_eq, claimed, kindOfMembers_tagged node.kind (untagged_ne_type node), ok_bind,
    claimedMembers_untagged, claimedMembers_ownMembers entries, ok_bind, complete_shown]

/-- The document of a node claims this node, at the top and below it. -/
theorem claimed_toJson (node : Node) (top : Bool) : claimed top (toJson node) = .ok node := by
  induction node using node_induction generalizing top with
  | file name hash size => exact claimed_of_entries (by nofun) top
  | directory name hash entries ih =>
    have hentries : ∀ entry ∈ (Node.directory name hash entries).entries,
        claimed false (toJson entry) = .ok entry := fun entry hentry => ih entry hentry false
    exact claimed_of_entries hentries top
  | link name hash target => exact claimed_of_entries (by nofun) top

end HashedTree.ClaimedNodes
