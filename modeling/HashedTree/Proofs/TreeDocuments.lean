import HashedTree.Proofs.ClaimedNodes
import HashedTree.Proofs.DocumentReading

/-!
# A tree is read back from its document

A tree that the constructors made is read back from its text in either layout, as long as no node
has more than 63 ancestors: a directory with entries opens an object and an array, and 127 of them
may be open at once. With one ancestor more the text is malformed.
-/
namespace HashedTree.TreeDocuments
open JsonReading ReadingSteps NumeralReading DocumentReading NodeDocument ClaimedNodes
open WellFormedTrees Outcomes

variable {layout : Json.Layout}

/-- A node stands in a tree, with as many ancestors. -/
inductive Beneath : Node → Nat → Node → Prop where
  | root (node : Node) : Beneath node 0 node
  | entry {name : String} {hash : Digest} {entries : List Node} {entry node : Node}
      {ancestors : Nat} (hmem : entry ∈ entries) (h : Beneath entry ancestors node) :
      Beneath (.directory name hash entries) (ancestors + 1) node

theorem nestingOfElements_le_iff {elements : List Json} {n : Nat} :
    nestingOfElements elements ≤ n ↔ ∀ element ∈ elements, nesting element ≤ n := by
  induction elements with
  | nil => simp [nestingOfElements]
  | cons element elements ih => rw [nestingOfElements, Nat.max_le, ih, List.forall_mem_cons]

theorem nesting_toJson (node : Node) :
    nesting (toJson node) = nestingOfMembers (ownMembers node) + 1 := by
  rw [toJson_eq, untagged]
  by_cases h : node.hash.isZero
  · rw [if_pos h]
    simp [nesting, nestingOfMembers]
  · rw [if_neg h]
    simp [nesting, nestingOfMembers, Digest.toJson]

private theorem nesting_directory_le_iff {name : String} {hash : Digest} {entries : List Node} {n : Nat} :
    nesting (toJson (.directory name hash entries)) ≤ 2 * n + 1 ↔
      ∀ entry ∈ entries, nesting (toJson entry) + 2 ≤ 2 * n + 1 := by
  rw [nesting_toJson, ownMembers]
  cases entries with
  | nil => simp [nestingOfMembers]
  | cons entry entries =>
    -- An object and an array are open around every entry.
    have helements : ∀ m, nestingOfElements (toJsonAll (entry :: entries)) ≤ m ↔
        ∀ inner ∈ entry :: entries, nesting (toJson inner) ≤ m := by
      intro m
      rw [toJsonAll_eq_map, nestingOfElements_le_iff, List.forall_mem_map]
    simp only [List.isEmpty_cons, Bool.false_eq_true, if_false, nestingOfMembers, nesting,
      Nat.max_zero]
    constructor
    · intro h inner hinner
      have hle := (helements (2 * n - 1)).mp (by omega) inner hinner
      omega
    · intro h
      have hfirst := h entry List.mem_cons_self
      have hle := (helements (2 * n - 1)).mpr fun inner hinner => by
        have := h inner hinner
        omega
      omega

/-- How deep a document is nested is decided by the node with the most ancestors. -/
theorem nesting_le_iff (node : Node) (n : Nat) :
    nesting (toJson node) ≤ 2 * n + 1 ↔
      ∀ ancestors inner, Beneath node ancestors inner → ancestors ≤ n := by
  induction node using node_induction generalizing n with
  | file name hash size =>
    constructor
    · rintro - ancestors inner ⟨⟩
      exact Nat.zero_le n
    · intro _
      rw [nesting_toJson, ownMembers]
      exact Nat.succ_le_succ (Nat.zero_le _)
  | directory name hash entries ih =>
    rw [nesting_directory_le_iff]
    constructor
    · intro h ancestors inner hinner
      cases hinner with
      | root => exact Nat.zero_le n
      | @entry _ _ _ entry _ ancestors hmem hinner =>
        have hentry := h entry hmem
        have hle := (ih entry hmem (n - 1)).mp (by omega) ancestors inner hinner
        omega
    · intro h entry hmem
      have hone : 1 ≤ n := h 1 entry (.entry hmem (.root entry))
      have hentry := (ih entry hmem (n - 1)).mpr fun ancestors inner hinner => by
        have := h (ancestors + 1) inner (.entry hmem hinner)
        omega
      omega
  | link name hash target =>
    constructor
    · rintro - ancestors inner ⟨⟩
      exact Nat.zero_le n
    · intro _
      rw [nesting_toJson, ownMembers]
      exact Nat.succ_le_succ (Nat.zero_le _)

theorem exact_toJson_of_own {node : Node} (own : ∀ member ∈ ownMembers node, Exact member.2) :
    Exact (toJson node) := by
  rw [toJson_eq]
  refine .object ?_
  rw [List.forall_mem_cons]
  exact ⟨.string _, forall_untagged (.string _) (.string _) own⟩

private theorem inRange_size (size : UInt64) : InRange size.toNat := by
  have := size.toNat_lt
  constructor <;> omega

theorem exact_ownMembers (node : Node) : ∀ member ∈ ownMembers node, Exact member.2 := by
  induction node using node_induction with
  | file name hash size => exact List.forall_mem_singleton.mpr (.integer (inRange_size size))
  | directory name hash entries ih =>
    have hall : ∀ element ∈ toJsonAll entries, Exact element := by
      rw [toJsonAll_eq_map, List.forall_mem_map]
      exact fun entry hentry => exact_toJson_of_own (ih entry hentry)
    cases entries with
    | nil => nofun
    | cons entry entries => exact List.forall_mem_singleton.mpr (.array hall)
  | link name hash target => exact List.forall_mem_singleton.mpr (.string target)

theorem attentive_reader : Attentive reader := fun _ => rfl

/-- Every tag among members names a kind of nodes. -/
def TagsNameKinds (members : List (String × Json)) : Prop :=
  ∀ member ∈ members, member.1 = "type" → ∃ kind : NodeKind, member.2 = .string kind.word

private theorem tagsNameKinds_nil : TagsNameKinds [] := by simp [TagsNameKinds]

theorem quiet_top {done : List (String × Json)} {name : String} (tags : TagsNameKinds done)
    (hname : name = "type" → done = []) : Quiet reader [.object done name] := by
  intro mode
  rcases done with _ | ⟨⟨tag, value⟩, done⟩
  · cases mode with
    | colon => exact if_neg (fun h => absurd h.2 (by decide))
    | _ => rfl
  · cases mode with
    | next =>
      by_cases htag : tag = "type"
      · obtain ⟨kind, rfl⟩ : ∃ kind : NodeKind, value = .string kind.word :=
          tags _ List.mem_cons_self htag
        change (if tag = "type" then objectionOf (kindOfTag true _) else none) = none
        rw [if_pos htag, kindOfTag_word]
        rfl
      · exact if_neg htag
    | colon => exact if_neg (fun h => List.cons_ne_nil _ _ (hname h.1))
    | _ => rfl

/-- Nothing is said against what stands in a member other than the tag. -/
theorem silent_top {done : List (String × Json)} {name : String} (tags : TagsNameKinds done)
    (hname : name ≠ "type") : Silent reader [.object done name] := by
  rintro (_ | ⟨frame, _ | ⟨frame', inner⟩⟩)
  · exact quiet_top tags (absurd · hname)
  · intro mode
    simp only [reader, List.singleton_append]
    split <;> simp_all
  · intro mode
    simp only [reader, List.cons_append]
    split <;> simp_all

private theorem room_top (frame : Frame) : [frame].length ≤ depthLimit := (by decide : 1 ≤ depthLimit)

theorem readsMembers_top {members done : List (String × Json)} (tags : TagsNameKinds done)
    (hnames : ∀ member ∈ members, member.1 ≠ "type")
    (hexact : ∀ member ∈ members, Exact member.2) :
    ReadsMembers reader layout 1 [] done members := by
  induction members generalizing done with
  | nil => exact quiet_top tags (by simp)
  | cons member members ih =>
    obtain ⟨name, value⟩ := member
    rw [List.forall_mem_cons] at hnames hexact
    have tagsNext : TagsNameKinds ((name, value) :: done) := by
      rw [TagsNameKinds, List.forall_mem_cons]
      exact ⟨(absurd · hnames.1), tags⟩
    refine ⟨quiet_top tags (by simp), quiet_top tags (absurd · hnames.1), ?_,
      ih tagsNext hnames.2 hexact.2⟩
    exact reads_of_exact attentive_reader (silent_top tags hnames.1) (room_top _) hexact.1

/-- The document of a node is read back where a tree is expected. -/
theorem reads_toJson (layout : Json.Layout) (node : Node) :
    Reads reader layout 0 [] (toJson node) := by
  have tags : TagsNameKinds [("type", .string node.kind.word)] := by
    rw [TagsNameKinds, List.forall_mem_singleton]
    exact fun _ => ⟨node.kind, rfl⟩
  rw [toJson_eq]
  refine reads_object attentive_reader rfl fun _ => ?_
  have quiet : ∀ name, Quiet reader [.object [] name] :=
    fun name => quiet_top tagsNameKinds_nil fun _ => rfl
  -- The tag is a string, so nothing need be known about what the reader says to other tags.
  refine ⟨quiet "", quiet "type", ?_, readsMembers_top tags (untagged_ne_type node) ?_⟩
  · exact reads_string attentive_reader (quiet "type") (room_top _) _
  · exact forall_untagged (.string _) (.string _) (exact_ownMembers node)

/-- What is read in the text of a node, whatever digests it claims. -/
theorem read_toJson (layout : Json.Layout) (node : Node) :
    reader.read ((toJson node).text layout) =
      within (nesting (toJson node)) (.ok (toJson node)) := by
  have hquiet : reader.objection ⟨[], .done (toJson node)⟩ = none := by
    change objectionOf (claimed true (toJson node)) = none
    rw [claimed_toJson]
    rfl
  rw [read_text (reads_toJson layout node), check_of_quiet hquiet, ok_map]

theorem parse_text_eq (layout : Json.Layout) (node : Node) :
    parse (text layout node) =
      if nesting (toJson node) ≤ depthLimit then .ok node.rebuild
      else .error (.fault .malformed) := by
  rw [parse, text, String.toList_ofList, read_toJson, within]
  split
  · rw [ok_bind, claimed_toJson, ok_mapError, ok_map]
  · rfl

/-- A tree is read back from its text if no node has more than 63 ancestors, and otherwise its text
is malformed. -/
theorem parse_text {tree : Node} (constructed : Constructed tree) (layout : Json.Layout) :
    ((∀ ancestors node, Beneath tree ancestors node → ancestors ≤ 63) →
      parse (text layout tree) = .ok tree) ∧
    ((∃ ancestors node, Beneath tree ancestors node ∧ 64 ≤ ancestors) →
      parse (text layout tree) = .error (.fault .malformed)) := by
  have hlimit : nesting (toJson tree) ≤ depthLimit ↔
      ∀ ancestors node, Beneath tree ancestors node → ancestors ≤ 63 := nesting_le_iff tree 63
  rw [parse_text_eq]
  constructor
  · intro h
    rw [if_pos (hlimit.mpr h), rebuild_of_wellFormed constructed.wellFormed]
  · rintro ⟨ancestors, node, hnode, hdeep⟩
    refine if_neg fun h => ?_
    have hshallow := hlimit.mp h ancestors node hnode
    omega

/-- Directories inside each other around a file of the largest size. Each has two entries, and those
of all but the innermost one share their name. -/
def chain : Nat → Node
  | 0 => .file "\"\\\x01/é" .zero (-1)
  | n + 1 => .ofEntries "d\n" [.ofTarget "d\n" "", chain n]

theorem constructed_chain (n : Nat) : Constructed (chain n) := by
  induction n with
  | zero => exact .file _ _ _
  | succ n ih =>
    refine .directory _ _ ?_
    rw [List.forall_mem_cons, List.forall_mem_singleton]
    exact ⟨.link _ _, ih⟩

theorem beneath_chain (n : Nat) : Beneath (chain n) n (chain 0) := by
  induction n with
  | zero => exact .root _
  | succ n ih => exact .entry (NameOrder.mem_sortByName.mpr (by simp)) ih

theorem le_of_beneath_chain {n ancestors : Nat} {node : Node}
    (h : Beneath (chain n) ancestors node) : ancestors ≤ n := by
  induction n generalizing ancestors with
  | zero =>
    cases h
    exact Nat.le_refl 0
  | succ n ih =>
    rcases h with _ | ⟨hmem, h⟩
    · exact Nat.zero_le _
    · rw [NameOrder.mem_sortByName, List.mem_pair] at hmem
      rcases hmem with rfl | rfl
      · cases h
        exact Nat.succ_le_succ (Nat.zero_le n)
      · exact Nat.succ_le_succ (ih h)

theorem chain_read_back_within_limit :
    Constructed (chain 63) ∧ Constructed (chain 64) ∧
      parse (text .indented (chain 63)) = .ok (chain 63) ∧
      parse (text .compact (chain 64)) = .error (.fault .malformed) :=
  ⟨constructed_chain 63, constructed_chain 64,
    (parse_text (constructed_chain 63) .indented).1 fun _ _ => le_of_beneath_chain,
    (parse_text (constructed_chain 64) .compact).2 ⟨64, chain 0, beneath_chain 64, Nat.le_refl 64⟩⟩

end HashedTree.TreeDocuments
