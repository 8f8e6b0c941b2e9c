import HashedTree.Proofs.AcceptedDocuments
import HashedTree.Proofs.ObtainableTrees

/-!
# Which trees can be read

A tree is read from some text exactly if the constructors make it and none of its nodes has more than
63 ancestors: whatever a text presents, as objects or arrays, unsorted and with forged digests, each
step down in the tree takes two arrays or objects of the text. So every tree that is read is read back
from its own text.
-/
namespace HashedTree.ReadableTrees
open JsonReading NodeDocument NodeSchema CollectedFields DocumentGrammar DocumentReading
open ReadingSteps ReadingMoves ReadingSoundness AcceptedDocuments ObtainableTrees
open WellFormedTrees TreeDocuments NameOrder Outcomes

variable {top : Bool} {v : Json} {node : Node}

section Depth

mutual
/-- A document is nested as deep as it is written. -/
theorem nesting_of_value? : ∀ {w : Written} {v : Json}, w.value? = some v → nesting v = w.depth
  | .null, _, h | .boolean _, _, h => by
    cases h
    rfl
  | .numeral n, _, h => by
    rcases WrittenValues.value?_cases h with ⟨x, rfl⟩ | ⟨-, -, -, ⟨-, rfl⟩ | ⟨-, k, rfl, -⟩⟩
    · rfl
    · rfl
    · rfl
  | .string pieces, _, h => by
    obtain ⟨text, -, rfl⟩ := Option.map_eq_some_iff.mp h
    rfl
  | .array elements, _, h => by
    obtain ⟨vs, hvalues, rfl⟩ := Option.map_eq_some_iff.mp h
    rw [nesting, Written.depth, nesting_of_values? hvalues]
  | .object members, _, h => by
    obtain ⟨ms, hvalues, rfl⟩ := Option.map_eq_some_iff.mp h
    rw [nesting, Written.depth, nesting_of_memberValues? hvalues]

theorem nesting_of_values? : ∀ {ws : List Written} {vs : List Json}, values? ws = some vs →
    nestingOfElements vs = depthOfElements ws
  | [], _, h => by
    cases h
    rfl
  | w :: ws, _, h => by
    obtain ⟨v, hvalue, hrest⟩ := Option.bind_eq_some_iff.mp h
    obtain ⟨vs, hvalues, rfl⟩ := Option.map_eq_some_iff.mp hrest
    rw [nestingOfElements, depthOfElements, nesting_of_value? hvalue, nesting_of_values? hvalues]

theorem nesting_of_memberValues? : ∀ {ms : List WrittenMember} {members : List (String × Json)},
    memberValues? ms = some members → nestingOfMembers members = depthOfMembers ms
  | [], _, h => by
    cases h
    rfl
  | (pieces, w) :: ms, _, h => by
    obtain ⟨name, -, hmember⟩ := Option.bind_eq_some_iff.mp h
    obtain ⟨v, hvalue, hrest⟩ := Option.bind_eq_some_iff.mp hmember
    obtain ⟨members, hvalues, rfl⟩ := Option.map_eq_some_iff.mp hrest
    rw [nestingOfMembers, depthOfMembers, nesting_of_value? hvalue,
      nesting_of_memberValues? hvalues]
end

theorem nestingOfMembers_eq (members : List (String × Json)) :
    nestingOfMembers members = nestingOfElements (members.map Prod.snd) := by
  induction members with
  | nil => rfl
  | cons member members ih => rw [nestingOfMembers, List.map_cons, nestingOfElements, ih]

theorem nesting_lt_of_mem_parts {value : Json} (h : value ∈ parts v) : nesting value < nesting v := by
  cases v with
  | array elements =>
    exact Nat.lt_succ_of_le (nestingOfElements_le_iff.mp (Nat.le_refl _) value h)
  | object members =>
    rw [nesting, nestingOfMembers_eq]
    exact Nat.lt_succ_of_le (nestingOfElements_le_iff.mp (Nat.le_refl _) value h)
  | _ => cases h

end Depth

section Entries

theorem mem_of_claimedAll {elements : List Json} {nodes : List Node}
    (h : claimedAll elements = .ok nodes) :
    ∀ entry ∈ nodes, ∃ element ∈ elements, claimed false element = .ok entry := by
  induction elements generalizing nodes with
  | nil =>
    cases h
    exact List.forall_mem_nil _
  | cons element elements ih =>
    simp only [claimedAll, bind_eq_ok, map_eq_ok] at h
    obtain ⟨first, hfirst, rest, hrest, rfl⟩ := h
    rw [List.forall_mem_cons]
    refine ⟨⟨element, List.mem_cons_self, hfirst⟩, fun entry hentry => ?_⟩
    obtain ⟨other, hother, hclaimed⟩ := ih hrest entry hentry
    exact ⟨other, List.mem_cons_of_mem _ hother, hclaimed⟩

/-- An entry is claimed by an element of an array that stands directly in the document. -/
def ClaimedWithin (v : Json) (entry : Node) : Prop :=
  ∃ elements, .array elements ∈ parts v ∧ ∃ element ∈ elements, claimed false element = .ok entry

theorem claimedWithin_of_claimedEntries {own : Json} {nodes : List Node} (hown : own ∈ parts v)
    (h : claimedEntries own = .ok nodes) : ∀ entry ∈ nodes, ClaimedWithin v entry := by
  cases own with
  | array elements => exact fun entry hentry => ⟨elements, hown, mem_of_claimedAll h entry hentry⟩
  | _ => cases h

theorem mem_parts_of_mem_valuesOf {members : List (String × Json)} {name : String} {value : Json}
    (h : value ∈ valuesOf name members) : value ∈ parts (.object members) := by
  rw [valuesOf, List.mem_map] at h
  obtain ⟨member, hmember, rfl⟩ := h
  exact List.mem_map_of_mem (List.mem_of_mem_filter hmember)

/-- Only a directory is completed with entries, and with those that were met. -/
theorem entries_of_complete {kind : NodeKind} {d : Draft} (h : d.complete kind = .ok node) :
    ∀ entry ∈ node.entries, kind = .directory ∧ ∃ entries, d.entries = some entries ∧ entry ∈ entries := by
  obtain ⟨name, hash, size, entries, target⟩ := d
  cases name with
  | none => cases h
  | some name =>
    cases kind with
    | file =>
      cases h
      exact List.forall_mem_nil _
    | directory =>
      cases h
      cases entries with
      | none => exact List.forall_mem_nil _
      | some entries => exact fun entry hentry => ⟨rfl, entries, rfl, hentry⟩
    | link =>
      cases target with
      | none => cases h
      | some target =>
        cases h
        exact List.forall_mem_nil _

theorem claimedWithin_of_claimed_object {members : List (String × Json)}
    (h : claimed top (.object members) = .ok node) :
    ∀ entry ∈ node.entries, ClaimedWithin (.object members) entry := by
  simp only [claimed, bind_eq_ok, claimedMembers_eq_ok] at h
  obtain ⟨kind, -, d, collects, hnode⟩ := h
  intro entry hentry
  obtain ⟨rfl, entries, hentries, hmem⟩ := entries_of_complete hnode entry hentry
  have hmeets := collects.entries
  rw [SchemaDecision.ownValues_self, hentries] at hmeets
  generalize hvalues : valuesOf (ownField .directory) members = values at hmeets
  cases hmeets with
  | @once own _ hown =>
    have hpart : own ∈ valuesOf (ownField .directory) members := hvalues ▸ List.mem_singleton_self own
    exact claimedWithin_of_claimedEntries (mem_parts_of_mem_valuesOf hpart) hown entry hmem

theorem claimedWithin_of_claimed_array {elements : List Json}
    (h : claimed top (.array elements) = .ok node) :
    ∀ entry ∈ node.entries, ClaimedWithin (.array elements) entry := by
  cases elements with
  | nil => cases h
  | cons tag fields =>
    obtain ⟨kind, -, hfields⟩ := bind_eq_ok.mp h
    have hshort : ∀ {name hash}, claimedFields.shortened kind name hash = .ok node →
        ∀ entry ∈ node.entries, ClaimedWithin (.array (tag :: fields)) entry := by
      intro name hash hnode
      cases kind with
      | link => cases hnode
      | _ =>
        cases hnode
        exact List.forall_mem_nil _
    rcases fields with _ | ⟨name, _ | ⟨hash, _ | ⟨last, surplus⟩⟩⟩
    · cases hfields
    · obtain ⟨text, -, hnode⟩ := bind_eq_ok.mp hfields
      exact hshort hnode
    · obtain ⟨text, -, hrest⟩ := bind_eq_ok.mp hfields
      obtain ⟨digest, -, hnode⟩ := bind_eq_ok.mp hrest
      exact hshort hnode
    · simp only [claimedFields, bind_eq_ok] at hfields
      obtain ⟨text, -, digest, -, given, hgiven, hsurplus⟩ := hfields
      obtain rfl : given = node := by
        split at hsurplus
        · exact Except.ok.inj hsurplus
        · cases hsurplus
      have hlast : last ∈ parts (.array (tag :: name :: hash :: last :: surplus)) := by simp [parts]
      cases kind with
      | file =>
        obtain ⟨size, -, rfl⟩ := map_eq_ok.mp hgiven
        exact List.forall_mem_nil _
      | directory =>
        obtain ⟨entries, hentries, rfl⟩ := map_eq_ok.mp hgiven
        exact claimedWithin_of_claimedEntries hlast hentries
      | link =>
        obtain ⟨target, -, rfl⟩ := map_eq_ok.mp hgiven
        exact List.forall_mem_nil _

theorem claimedWithin_of_claimed (h : claimed top v = .ok node) :
    ∀ entry ∈ node.entries, ClaimedWithin v entry := by
  cases v with
  | object members => exact claimedWithin_of_claimed_object h
  | array elements => exact claimedWithin_of_claimed_array h
  | _ => cases h

theorem nesting_pos_of_claimed (h : claimed top v = .ok node) : 0 < nesting v := by
  cases v with
  | object members => exact Nat.succ_pos _
  | array elements => exact Nat.succ_pos _
  | _ => cases h

theorem ClaimedWithin.nesting {entry : Node} (h : ClaimedWithin v entry) :
    ∃ element, claimed false element = .ok entry ∧ nesting element + 2 ≤ nesting v := by
  obtain ⟨elements, hpart, element, helement, hclaimed⟩ := h
  have houter := nesting_lt_of_mem_parts hpart
  have hinner : DocumentReading.nesting element < DocumentReading.nesting (.array elements) :=
    nesting_lt_of_mem_parts helement
  exact ⟨element, hclaimed, by omega⟩

/-- Each ancestor of a node takes two of the arrays and objects that are open around it. -/
theorem ancestors_le_nesting {inner : Node} {ancestors : Nat} (h : claimed top v = .ok node)
    (hinner : Beneath node ancestors inner) : 2 * ancestors + 1 ≤ nesting v := by
  induction hinner generalizing top v with
  | root node => exact nesting_pos_of_claimed h
  | @entry name hash entries entry inner ancestors hmem hinner ih =>
    obtain ⟨element, helement, hle⟩ := (claimedWithin_of_claimed h entry hmem).nesting
    have := ih helement
    omega

end Entries

section Rebuilding

theorem exists_beneath_of_rebuild {inner : Node} {ancestors : Nat}
    (h : Beneath node.rebuild ancestors inner) : ∃ claimant, Beneath node ancestors claimant := by
  induction node using node_induction generalizing ancestors inner with
  | file name hash size =>
    cases h
    exact ⟨_, .root _⟩
  | link name hash target =>
    cases h
    exact ⟨_, .root _⟩
  | directory name hash entries ih =>
    rw [Node.rebuild, rebuildAll_eq_map, Node.ofEntries] at h
    cases h with
    | root => exact ⟨_, .root _⟩
    | entry hmem h =>
      obtain ⟨entry, hentry, rfl⟩ := List.mem_map.mp (mem_sortByName.mp hmem)
      obtain ⟨claimant, hclaimant⟩ := ih entry hentry h
      exact ⟨claimant, .entry hentry hclaimant⟩

end Rebuilding

/-- Between 127 arrays and objects there is room for 63 steps down in a tree. -/
theorem ancestors_le_of_parse {text : String} {tree : Node} (h : parse text = .ok tree) :
    ∀ ancestors inner, Beneath tree ancestors inner → ancestors ≤ 63 := by
  obtain ⟨v, node, hread, hclaimed, rfl⟩ := parse_eq_ok.mp h
  have himpartial := impartial_of_readFrom attentive_reader hread
  obtain ⟨w, writes⟩ := writes_of_read attentive_impartial himpartial
  obtain ⟨bounded, value⟩ := (impartial_read_eq_ok writes).mp himpartial
  intro ancestors inner hinner
  obtain ⟨claimant, hclaimant⟩ := exists_beneath_of_rebuild hinner
  have hle := ancestors_le_nesting hclaimed hclaimant
  rw [nesting_of_value? value] at hle
  rw [depthLimit] at bounded
  omega

theorem constructed_of_parse {text : String} {tree : Node} (h : parse text = .ok tree) :
    Constructed tree :=
  (wellFormed_of_parse h).constructed

/-- Every tree that is read is read back from its text in either layout, and the trees that can be
read are those that the constructors make with at most 63 ancestors of each node. -/
theorem parse_text_of_parse :
    (∀ (text : String) (tree : Node), parse text = .ok tree →
      ∀ layout, parse (NodeDocument.text layout tree) = .ok tree) ∧
    ∀ tree : Node, (∃ text, parse text = .ok tree) ↔
      Constructed tree ∧ ∀ ancestors node, Beneath tree ancestors node → ancestors ≤ 63 := by
  constructor
  · intro text tree h layout
    exact (parse_text (constructed_of_parse h) layout).1 (ancestors_le_of_parse h)
  · intro tree
    constructor
    · rintro ⟨text, h⟩
      exact ⟨constructed_of_parse h, ancestors_le_of_parse h⟩
    · rintro ⟨constructed, shallow⟩
      exact ⟨_, (parse_text constructed .compact).1 shallow⟩

theorem forgedNode_read_back :
    parse (text .compact forgedNode) = .ok forgedNode.rebuild ∧
      parse (text .indented forgedNode.rebuild) = .ok forgedNode.rebuild ∧
      (Constructed (chain 63) ∧ ∀ ancestors node, Beneath (chain 63) ancestors node → ancestors ≤ 63) ∧
      ¬∃ text, parse text = .ok (chain 64) := by
  refine ⟨parse_forgedNode, parse_text_of_parse.1 _ _ parse_forgedNode .indented,
    (parse_text_of_parse.2 (chain 63)).mp ⟨text .indented (chain 63), ?_⟩, fun h => ?_⟩
  · exact (parse_text (constructed_chain 63) .indented).1 fun _ _ => le_of_beneath_chain
  · have shallow := ((parse_text_of_parse.2 (chain 64)).mp h).2
    exact absurd (shallow 64 (chain 0) (beneath_chain 64)) (by decide)

end HashedTree.ReadableTrees
