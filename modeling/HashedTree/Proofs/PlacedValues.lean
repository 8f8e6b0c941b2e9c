import HashedTree.Proofs.LaidTables

/-!
# A value at the end of a way, whatever else is laid

A value that is laid at the end of a way stays there as long as every key that is laid later
branches off from the way. The rest of the tree is what it would be without it.
-/
namespace HashedTree.PlacedValues
open SettingTree LaidTables

variable {way rest : List String} {name other : String} {steps : List KeyStep}
  {tree changed target value held : SettingTree} {layer : List (String × SettingTree)}

/-- The second tree has a value at the end of a way through tables, and is as the first one
elsewhere. -/
def Placed (value : SettingTree) : List String → SettingTree → SettingTree → Prop
  | [], _, changed => changed = value
  | name :: rest, tree, changed =>
    isTable changed = true ∧ (∀ other ≠ name, changed.member? other = tree.member? other) ∧
      ∃ inner, changed.member? name = some inner ∧
        Placed value rest ((tree.member? name).getD empty) inner

/-- A path leaves a way before the end of either. -/
def branchesOff : List KeyStep → List String → Bool
  | .member name :: steps, other :: way => LetterCase.lowercase name ≠ other || branchesOff steps way
  | _, _ => false

/-! ### One key after the other -/

theorem isTable_withMember : isTable (target.withMember name value) = true := by
  cases target <;> rfl

/-- What is missing on a path becomes a table. -/
theorem layAt_null (origin : Option String) (value : SettingTree) :
    layAt value (.member name :: steps) (.null origin) = layAt value (.member name :: steps) empty := by
  cases steps with
  | nil => exact lay_null origin
  | cons step steps => rfl

theorem layAt_within (value : SettingTree) (found : Option SettingTree) :
    layAt value (.member name :: steps) (found.getD (.null none)) =
      layAt value (.member name :: steps) (found.getD empty) := by
  cases found with
  | none => exact layAt_null none value
  | some inner => rfl

/-- A path sets the first name on it, to something that depends on what stood there only. -/
theorem layAt_member (value : SettingTree) (name : String) (steps : List KeyStep) :
    ∃ inside : Option SettingTree → SettingTree, ∀ target,
      layAt value (.member name :: steps) target =
        target.withMember (LetterCase.lowercase name)
          (inside (target.member? (LetterCase.lowercase name))) := by
  cases steps with
  | cons step steps => exact ⟨fun found => layAt value (step :: steps) (found.getD (.null none)),
      fun target => by cases step <;> rfl⟩
  | nil =>
    cases value with
    | table origin members =>
      exact ⟨fun found => layMembers (found.getD empty) members, fun target => rfl⟩
    | _ => exact ⟨fun _ => _, fun target => rfl⟩

theorem layAt_member_member (value : SettingTree) (name other : String) (steps : List KeyStep)
    (target : SettingTree) :
    layAt value (.member name :: .member other :: steps) target =
      target.withMember (LetterCase.lowercase name)
        (layAt value (.member other :: steps)
          ((target.member? (LetterCase.lowercase name)).getD empty)) := by
  rw [← layAt_within, layAt]
  exact List.cons_ne_nil _ _

theorem layLayer_cons (tree value : SettingTree) (key : String)
    (layer : List (String × SettingTree)) :
    tree.layLayer ((key, value) :: layer) =
      (layAt value (KeyPath.ofKey key) tree).layLayer layer := rfl

theorem layLayer_append (tree : SettingTree) (before after : List (String × SettingTree)) :
    tree.layLayer (before ++ after) = (tree.layLayer before).layLayer after :=
  List.foldl_append

/-! ### Placed by laying -/

theorem placed_withMember {inner : SettingTree}
    (placed : Placed value rest ((tree.member? name).getD empty) inner) :
    Placed value (name :: rest) tree (tree.withMember name inner) := by
  refine ⟨isTable_withMember, fun other different => ?_, inner, ?_, placed⟩
  · rw [member?_withMember, if_neg different.symm]
  · rw [member?_withMember, if_pos rfl]

theorem placed_laid (single : isTable value = false) :
    ∀ {way : List String} (tree : SettingTree), way ≠ [] →
      (∀ name ∈ way, LetterCase.lowercase name = name) →
      Placed value way tree (layAt value (way.map .member) tree)
  | [name], tree, _, lower => by
    rw [List.map_singleton, layAt, lay_of_not_table single (lower name List.mem_cons_self)]
    exact placed_withMember rfl
  | name :: other :: rest, tree, _, lower => by
    obtain ⟨here, later⟩ := List.forall_mem_cons.1 lower
    rw [List.map_cons, List.map_cons, layAt_member_member, here]
    exact placed_withMember (placed_laid single _ (List.cons_ne_nil other rest) later)

/-- What is replaced at the end of the way does not matter. -/
theorem Placed.replaced : ∀ {way : List String} {tree target changed : SettingTree},
    Placed held way tree target → Placed value way tree changed → Placed value way target changed
  | [], _, _, _, _, placed => placed
  | _ :: _, _, _, _, ⟨_, targetElsewhere, _, targetHere, first⟩,
      ⟨tabular, elsewhere, inner, here, placed⟩ => by
    refine ⟨tabular, fun other different => ?_, inner, here, ?_⟩
    · rw [elsewhere other different, targetElsewhere other different]
    · rw [targetHere, Option.getD_some]
      exact first.replaced placed

/-! ### Kept by what is laid later -/

theorem placed_both_withMember {inner changedInner : SettingTree}
    (elsewhere : ∀ other ≠ name, changed.member? other = tree.member? other)
    (placed : Placed value rest inner changedInner) :
    Placed value (name :: rest) (tree.withMember name inner)
      (changed.withMember name changedInner) := by
  refine ⟨isTable_withMember, fun other different => ?_, changedInner, ?_, ?_⟩
  · rw [member?_withMember, member?_withMember, if_neg different.symm, if_neg different.symm,
      elsewhere other different]
  · rw [member?_withMember, if_pos rfl]
  · rwa [member?_withMember, if_pos rfl, Option.getD_some]

theorem placed_layAt {laid : SettingTree} : ∀ {way : List String} {steps : List KeyStep}
    {tree changed : SettingTree}, branchesOff steps way = true → Placed value way tree changed →
    Placed value way (layAt laid steps tree) (layAt laid steps changed)
  | head :: rest, .member name :: steps, tree, changed, off,
      ⟨tabular, elsewhere, inner, here, placed⟩ => by
    by_cases same : LetterCase.lowercase name = head
    · -- the path goes on along the way, and leaves it further on
      have later : branchesOff steps rest = true := by simpa [branchesOff, same] using off
      obtain _ | ⟨other | index, steps⟩ := steps
      · cases rest <;> cases later
      · rw [layAt_member_member, layAt_member_member, same, here, Option.getD_some]
        exact placed_both_withMember elsewhere (placed_layAt later placed)
      · cases rest <;> cases later
    · obtain ⟨inside, hinside⟩ := layAt_member laid name steps
      rw [hinside, hinside, elsewhere _ same]
      refine ⟨isTable_withMember, fun other different => ?_, inner, ?_, ?_⟩
      · rw [member?_withMember, member?_withMember, elsewhere other different]
      · rw [member?_withMember, if_neg same, here]
      · rw [member?_withMember, if_neg same]
        exact placed
  | [], [], _, _, off, _ | [], .member _ :: _, _, _, off, _ | [], .element _ :: _, _, _, off, _
  | _ :: _, [], _, _, off, _ | _ :: _, .element _ :: _, _, _, off, _ => nomatch off

theorem placed_layLayer (off : ∀ entry ∈ layer, branchesOff (KeyPath.ofKey entry.1) way = true)
    (placed : Placed value way tree changed) :
    Placed value way (tree.layLayer layer) (changed.layLayer layer) := by
  induction layer generalizing tree changed with
  | nil => exact placed
  | cons entry layer ih =>
    obtain ⟨here, later⟩ := List.forall_mem_cons.1 off
    exact ih later (placed_layAt here placed)

theorem placed_layMembers {members : List (String × SettingTree)}
    (others : ∀ member ∈ members, LetterCase.lowercase member.1 ≠ name)
    (placed : Placed value (name :: rest) tree changed) :
    Placed value (name :: rest) (layMembers tree members) (layMembers changed members) := by
  induction members generalizing tree changed with
  | nil => exact placed
  | cons member members ih =>
    obtain ⟨here, later⟩ := List.forall_mem_cons.1 others
    have off : branchesOff [.member member.1] (name :: rest) = true := by
      simp [branchesOff, here]
    exact ih later (placed_layAt off placed)

/-- What stands in a table stays there if its name is not written again. -/
theorem placed_layMembers_cons (single : isTable value = false)
    (lower : LetterCase.lowercase name = name) {members : List (String × SettingTree)}
    (others : ∀ member ∈ members, LetterCase.lowercase member.1 ≠ name) (target : SettingTree) :
    Placed value [name] (layMembers target ((name, value) :: members))
      (layMembers target ((name, value) :: members)) := by
  have first : Placed value [name] target (target.withMember name value) := placed_withMember rfl
  rw [layMembers, lay_of_not_table single lower]
  exact placed_layMembers others (first.replaced first)

/-- What is no table has no members, as the empty table. -/
theorem placed_empty (single : isTable tree = false)
    (placed : Placed value (name :: rest) tree changed) :
    Placed value (name :: rest) empty changed := by
  have none : ∀ other, tree.member? other = empty.member? other := by
    intro other
    cases tree with
    | table => cases single
    | _ => rfl
  obtain ⟨tabular, elsewhere, inner, here, placed⟩ := placed
  rw [none name] at placed
  exact ⟨tabular, fun other different => (elsewhere other different).trans (none other), inner, here,
    placed⟩

/-! ### The root -/

theorem exists_member_of_stepsFrom {text done : List Char} {steps : List KeyStep}
    (h : KeyPath.stepsFrom (.name done) text = some steps) :
    ∃ name rest, steps = .member name :: rest := by
  induction text generalizing done with
  | nil =>
    cases done with
    | nil => cases h
    | cons c done =>
      cases h
      exact ⟨_, [], rfl⟩
  | cons c text ih =>
    rw [KeyPath.stepsFrom] at h
    split at h
    · exact ih h
    split at h
    · cases h
    split at h
    · obtain ⟨rest, -, rfl⟩ := Option.map_eq_some_iff.1 h
      exact ⟨_, rest, rfl⟩
    split at h
    · obtain ⟨rest, -, rfl⟩ := Option.map_eq_some_iff.1 h
      exact ⟨_, rest, rfl⟩
    · cases h

/-- Every key starts with a name. -/
theorem exists_member_of_key (key : String) :
    ∃ name rest, KeyPath.ofKey key = .member name :: rest := by
  unfold KeyPath.ofKey
  cases h : KeyPath.stepsFrom (.name []) key.toList with
  | none => exact ⟨key, [], rfl⟩
  | some steps => exact exists_member_of_stepsFrom h

theorem isTable_layLayer (tabular : isTable tree = true) : isTable (tree.layLayer layer) = true := by
  induction layer generalizing tree with
  | nil => exact tabular
  | cons entry layer ih =>
    obtain ⟨name, rest, steps⟩ := exists_member_of_key entry.1
    obtain ⟨inside, hinside⟩ := layAt_member entry.2 name rest
    have first : isTable (layAt entry.2 (KeyPath.ofKey entry.1) tree) = true := by
      rw [steps, hinside]
      exact isTable_withMember
    exact ih first

end HashedTree.PlacedValues
