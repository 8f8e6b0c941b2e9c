import HashedTree.Proofs.EntrySearch

/-!
# Entries that are found by their name

On entries in the order of their names, of which several may have one name, the search by halving
finds an entry of a name exactly if there is one. Which of several it finds depends on where the
halves fall; where no name is repeated it is the first one from the front.
-/
namespace HashedTree.FoundEntries
open Utf8Text NodeLookup NameOrder EntrySearch

variable {attempts : Nat} {entries : List Node}

/-- An entry of a name lies above the middle if the middle comes before the name, and otherwise
below it, unless the middle has the name. -/
theorem mem_half {below above : List Node} {middle node : Node}
    (ordered : Ordered (below ++ middle :: above)) (hnode : node ∈ below ++ middle :: above)
    (other : middle.name ≠ node.name) :
    if utf8 middle.name < utf8 node.name then node ∈ above else node ∈ below := by
  rw [Ordered, List.pairwise_append, List.pairwise_cons] at ordered
  obtain ⟨-, ⟨hmiddle, -⟩, hacross⟩ := ordered
  rcases List.mem_append.mp hnode with hbelow | hrest
  · have hle : utf8 node.name ≤ utf8 middle.name := hacross node hbelow middle List.mem_cons_self
    rw [if_neg (List.not_lt.mpr hle)]
    exact hbelow
  · rcases List.mem_cons.mp hrest with rfl | habove
    · exact absurd rfl other
    · have hle : utf8 middle.name ≤ utf8 node.name := hmiddle node habove
      have hlt : utf8 middle.name < utf8 node.name :=
        (List.le_iff_lt_or_eq.mp hle).resolve_right fun heq => other (utf8_injective heq)
      rw [if_pos hlt]
      exact habove

/-- Among entries in order, one of a name is found if there is one. -/
theorem exists_searchWithin (ordered : Ordered entries) (enough : entries.length < attempts)
    {node : Node} (hnode : node ∈ entries) :
    ∃ found, searchWithin node.name attempts entries = some found := by
  induction attempts generalizing entries with
  | zero => omega
  | succ attempts ih =>
    obtain ⟨below, middle, above, rfl, hstep⟩ :=
      searchWithin_step node.name attempts (List.ne_nil_of_mem hnode)
    rw [hstep]
    by_cases hname : middle.name = node.name
    · exact ⟨middle, if_pos hname⟩
    have hhalf := mem_half ordered hnode hname
    rw [Ordered, List.pairwise_append, List.pairwise_cons] at ordered
    rw [List.length_append, List.length_cons] at enough
    rw [if_neg hname]
    split_ifs at hhalf ⊢
    · exact ih ordered.2.1.2 (by omega) hhalf
    · exact ih ordered.1 (by omega) hhalf

/-- In a directory, whatever nodes it was made of, an entry is found by a name exactly if one has
this name; it is then such an entry, and the first one if no two have one name. -/
theorem search_finds_named (directory : String) (nodes : List Node) (name : String) :
    ((∃ found, (Node.ofEntries directory nodes).search name = some found) ↔
        ∃ entry ∈ (Node.ofEntries directory nodes).entries, entry.name = name) ∧
      (∀ found, (Node.ofEntries directory nodes).search name = some found →
        found ∈ (Node.ofEntries directory nodes).entries ∧ found.name = name) ∧
      (((Node.ofEntries directory nodes).entries.map Node.name).Nodup →
        (Node.ofEntries directory nodes).search name =
          (Node.ofEntries directory nodes).entries.find? (·.name = name)) := by
  have ordered : Ordered (Node.ofEntries directory nodes).entries := ordered_sortByName nodes
  have sound : ∀ found, (Node.ofEntries directory nodes).search name = some found →
      found ∈ (Node.ofEntries directory nodes).entries ∧ found.name = name :=
    fun found h => of_searchWithin h
  refine ⟨⟨?_, ?_⟩, sound, fun distinct => search_eq_find? (ascending_of_nodup ordered distinct)⟩
  · rintro ⟨found, h⟩
    exact ⟨found, sound found h⟩
  · rintro ⟨entry, hentry, rfl⟩
    exact exists_searchWithin ordered (Nat.lt_succ_self _) hentry

def distinctEntries : List Node :=
  [.file "c" (.ofByte 1) 1, .ofTarget "a" "c", .file "b" (.ofByte 2) 2]

/-- Two entries have the name `b`. -/
def crowdedEntries : List Node := .ofTarget "b" "c" :: distinctEntries

theorem namesake_found :
    (∃ found, (Node.ofEntries "d" crowdedEntries).search "b" = some found ∧
      found ∈ (Node.ofEntries "d" crowdedEntries).entries ∧ found.name = "b") ∧
      (¬∃ found, (Node.ofEntries "d" crowdedEntries).search "bb" = some found) ∧
      ((Node.ofEntries "d" distinctEntries).entries.map Node.name).Nodup ∧
      (Node.ofEntries "d" distinctEntries).search "b" =
        (Node.ofEntries "d" distinctEntries).entries.find? (·.name = "b") := by
  have listed : ∃ entry ∈ (Node.ofEntries "d" crowdedEntries).entries, entry.name = "b" :=
    ⟨.ofTarget "b" "c", mem_sortByName.mpr List.mem_cons_self, rfl⟩
  have unlisted : ∀ entry ∈ crowdedEntries, entry.name ≠ "bb" := by decide
  have distinct : ((Node.ofEntries "d" distinctEntries).entries.map Node.name).Nodup :=
    ((sortByName_perm distinctEntries).map Node.name).nodup_iff.mpr (by decide)
  obtain ⟨found, hfound⟩ := (search_finds_named "d" crowdedEntries "b").1.mpr listed
  refine ⟨⟨found, hfound, (search_finds_named "d" crowdedEntries "b").2.1 found hfound⟩, ?_,
    distinct, (search_finds_named "d" distinctEntries "b").2.2 distinct⟩
  intro hfound
  obtain ⟨entry, hentry, hname⟩ := (search_finds_named "d" crowdedEntries "bb").1.mp hfound
  exact unlisted entry (mem_sortByName.mp hentry) hname

end HashedTree.FoundEntries
