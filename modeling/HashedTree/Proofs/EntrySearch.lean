import HashedTree.NodeLookup
import HashedTree.Proofs.NameOrder

/-!
# Halving finds the entry of a name, and a path its names

On entries that ascend by name the search by halving gives the same entry as looking through all
of them from the front. A path that joins entry names by slashes has these names as its components,
so it is followed name by name.
-/
namespace HashedTree.EntrySearch
open Utf8Text NodeLookup NameOrder

private theorem find?_eq_none_of_ne {name : String} {nodes : List Node}
    (h : ∀ node ∈ nodes, node.name ≠ name) : nodes.find? (·.name = name) = none := by
  rw [List.find?_eq_none]
  intro node hnode
  simpa using h node hnode

private theorem name_ne_of_lt {a b : Node} (h : utf8 a.name < utf8 b.name) : a.name ≠ b.name := by
  intro heq
  rw [heq] at h
  exact List.lt_irrefl _ h

/-- The entry in the middle tells on which side of it a name must be looked for. -/
theorem find?_around (name : String) {below above : List Node} {middle : Node}
    (ascending : Ascending (below ++ middle :: above)) :
    (below ++ middle :: above).find? (·.name = name) =
      if middle.name = name then some middle
      else if utf8 middle.name < utf8 name then above.find? (·.name = name)
      else below.find? (·.name = name) := by
  rw [Ascending, List.pairwise_append, List.pairwise_cons] at ascending
  obtain ⟨-, ⟨hmiddle, -⟩, hacross⟩ := ascending
  have hbelow : ∀ node ∈ below, utf8 node.name < utf8 middle.name :=
    fun node hnode => hacross node hnode middle List.mem_cons_self
  rw [List.find?_append]
  split_ifs with heq hlt
  · have hnone : below.find? (·.name = name) = none :=
      find?_eq_none_of_ne fun node hnode => heq ▸ name_ne_of_lt (hbelow node hnode)
    rw [hnone, Option.none_or, List.find?_cons_of_pos (by simpa using heq)]
  · have hnone : below.find? (·.name = name) = none :=
      find?_eq_none_of_ne fun node hnode hname =>
        List.lt_irrefl _ (List.lt_trans (hname ▸ hbelow node hnode) hlt)
    rw [hnone, Option.none_or, List.find?_cons_of_neg (by simpa using heq)]
  · have hnone : above.find? (·.name = name) = none :=
      find?_eq_none_of_ne fun node hnode hname => hlt (hname ▸ hmiddle node hnode)
    rw [List.find?_cons_of_neg (by simpa using heq), hnone, Option.or_none]

/-- More attempts than entries are enough. -/
theorem searchWithin_eq_find? {name : String} {attempts : Nat} {entries : List Node}
    (ascending : Ascending entries) (enough : entries.length < attempts) :
    searchWithin name attempts entries = entries.find? (·.name = name) := by
  induction attempts generalizing entries with
  | zero => omega
  | succ attempts ih =>
    by_cases hempty : entries = []
    · rw [hempty, searchWithin_nil, List.find?_nil]
    obtain ⟨below, middle, above, rfl, hstep⟩ := searchWithin_step name attempts hempty
    rw [hstep, find?_around name ascending]
    rw [Ascending, List.pairwise_append, List.pairwise_cons] at ascending
    rw [List.length_append, List.length_cons] at enough
    rw [ih ascending.2.1.2 (by omega), ih ascending.1 (by omega)]

theorem search_eq_find? {node : Node} {name : String} (ascending : Ascending node.entries) :
    node.search name = node.entries.find? (·.name = name) :=
  searchWithin_eq_find? ascending (Nat.lt_succ_self _)

theorem find?_eq_some_iff_of_nodup {nodes : List Node}
    (distinct : (nodes.map Node.name).Nodup) {name : String} {node : Node} :
    nodes.find? (·.name = name) = some node ↔ node ∈ nodes ∧ node.name = name := by
  induction nodes with
  | nil => simp
  | cons first rest ih =>
    rw [List.map_cons, List.nodup_cons] at distinct
    by_cases heq : first.name = name
    · have hnot : node ∈ rest → node.name ≠ name := fun hmem hname =>
        distinct.1 (List.mem_map.mpr ⟨node, hmem, hname.trans heq.symm⟩)
      rw [List.find?_cons_of_pos (by simpa using heq), Option.some.injEq, List.mem_cons]
      constructor
      · rintro rfl
        exact ⟨.inl rfl, heq⟩
      · rintro ⟨rfl | hmem, hname⟩
        · rfl
        · exact absurd hname (hnot hmem)
    · rw [List.find?_cons_of_neg (by simpa using heq), ih distinct.2, List.mem_cons]
      constructor
      · rintro ⟨hmem, hname⟩
        exact ⟨.inr hmem, hname⟩
      · rintro ⟨rfl | hmem, hname⟩
        · exact absurd hname heq
        · exact ⟨hmem, hname⟩

theorem find?_sortByName {nodes : List Node} (distinct : (nodes.map Node.name).Nodup)
    (name : String) :
    (Node.sortByName nodes).find? (·.name = name) = nodes.find? (·.name = name) := by
  have hsorted : ((Node.sortByName nodes).map Node.name).Nodup :=
    ((sortByName_perm nodes).map Node.name).nodup_iff.mpr distinct
  apply Option.ext
  intro node
  rw [find?_eq_some_iff_of_nodup distinct, find?_eq_some_iff_of_nodup hsorted, mem_sortByName]

/-- Every entry of a directory is found by its name if no two have one name. -/
theorem search_ofEntries {name : String} {nodes : List Node} {node : Node}
    (distinct : (nodes.map Node.name).Nodup) (hnode : node ∈ nodes) :
    (Node.ofEntries name nodes).search node.name = some node := by
  have hascending : Ascending (Node.ofEntries name nodes).entries := ascending_sortByName distinct
  rw [search_eq_find? hascending]
  exact (find?_sortByName distinct node.name).trans
    ((find?_eq_some_iff_of_nodup distinct).mpr ⟨hnode, rfl⟩)

/-- Whatever the order of the entries, only one of them is found, and it has the name that was
looked for. -/
theorem of_searchWithin {name : String} {attempts : Nat} {entries : List Node} {found : Node}
    (h : searchWithin name attempts entries = some found) :
    found ∈ entries ∧ found.name = name := by
  induction attempts generalizing entries with
  | zero => cases h
  | succ attempts ih =>
    by_cases hempty : entries = []
    · rw [hempty, searchWithin_nil] at h
      cases h
    obtain ⟨below, middle, above, rfl, hstep⟩ := searchWithin_step name attempts hempty
    rw [hstep] at h
    split_ifs at h with hname
    · obtain rfl := Option.some.inj h
      exact ⟨List.mem_append_right _ List.mem_cons_self, hname⟩
    · obtain ⟨hmem, hfound⟩ := ih h
      exact ⟨List.mem_append_right _ (List.mem_cons_of_mem _ hmem), hfound⟩
    · obtain ⟨hmem, hfound⟩ := ih h
      exact ⟨List.mem_append_left _ hmem, hfound⟩

theorem mem_entries_of_search {node found : Node} {name : String}
    (h : node.search name = some found) : found ∈ node.entries := (of_searchWithin h).1

/-- What holds of a node and passes on to entries holds of everything that is found at a path. -/
theorem of_locate {P : Node → Prop} (entry : ∀ node, ∀ e ∈ node.entries, P node → P e)
    {node found : Node} {path : String} (hnode : P node) (h : node.locate path = some found) :
    P found := by
  rw [Node.locate] at h
  generalize (components path.toList).map String.ofList = names at h
  induction names generalizing node with
  | nil => exact Option.some.inj h ▸ hnode
  | cons name names ih =>
    rw [Node.follow] at h
    split_ifs at h
    · exact ih hnode h
    · obtain ⟨child, hchild, hfound⟩ := Option.bind_eq_some_iff.mp h
      exact ih (entry node child (mem_entries_of_search hchild) hnode) hfound

/-- What an entry of a directory can be called. -/
structure IsEntryName (name : String) : Prop where
  nonempty : name ≠ ""
  notHere : name ≠ "."
  notParent : name ≠ ".."
  noSlash : '/' ∉ name.toList

theorem follow_cons {node : Node} {name : String} (h : IsEntryName name) (rest : List String) :
    node.follow (name :: rest) = (node.search name).bind (·.follow rest) := by
  simp only [Node.follow, h.nonempty, h.notHere, h.notParent, or_self, if_false]

/-- A path through another one is followed in two parts. -/
theorem follow_append (node : Node) (names rest : List String) :
    node.follow (names ++ rest) = (node.follow names).bind (·.follow rest) := by
  induction names generalizing node with
  | nil => rfl
  | cons name names ih =>
    rw [List.cons_append, Node.follow, Node.follow]
    split_ifs
    · exact ih node
    · rfl
    · rw [Option.bind_assoc]
      exact Option.bind_congr fun child _ => ih child

private theorem components_of_notMem {text : List Char} (h : '/' ∉ text) :
    components text = [text] := by
  induction text with
  | nil => rfl
  | cons c rest ih =>
    simp only [List.mem_cons, not_or] at h
    simp [components, Ne.symm h.1, ih h.2]

private theorem components_append_slash {text : List Char} (h : '/' ∉ text) (rest : List Char) :
    components (text ++ '/' :: rest) = text :: components rest := by
  induction text with
  | nil => simp [components]
  | cons c text ih =>
    simp only [List.mem_cons, not_or] at h
    simp [components, Ne.symm h.1, ih h.2]

/-- The names between the slashes of a joined path are the names that were joined. -/
theorem components_intercalate {names : List String} (nonempty : names ≠ [])
    (noSlash : ∀ name ∈ names, '/' ∉ name.toList) :
    (components ("/".intercalate names).toList).map String.ofList = names := by
  induction names with
  | nil => exact absurd rfl nonempty
  | cons name rest ih =>
    have hname := noSlash name List.mem_cons_self
    cases rest with
    | nil => simp [components_of_notMem hname]
    | cons next rest =>
      have hrest := ih (by simp) fun other hother => noSlash other (List.mem_cons_of_mem _ hother)
      have htext : ("/".intercalate (name :: next :: rest)).toList =
          name.toList ++ '/' :: ("/".intercalate (next :: rest)).toList := by
        simp [String.intercalate_cons_cons, String.toList_append]
      rw [htext, components_append_slash hname, List.map_cons, hrest, String.ofList_toList]

theorem locate_intercalate (node : Node) {names : List String} (nonempty : names ≠ [])
    (entryNames : ∀ name ∈ names, IsEntryName name) :
    node.locate ("/".intercalate names) = node.follow names := by
  rw [Node.locate,
    components_intercalate nonempty fun name hname => (entryNames name hname).noSlash]

end HashedTree.EntrySearch
