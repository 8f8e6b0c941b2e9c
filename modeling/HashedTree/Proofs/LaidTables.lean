import HashedTree.SettingTree
import Mathlib.Data.List.Forall2

/-! # What stands in a tree of values after others were laid over it

A way leads from table to table by their names. At its end stands, after a table was laid over a
tree, what the table states there last, and where it states nothing, what stood there before. A key
that is a path of names acts as the table of tables that it spells, so that any number of layers
acts as the members of one table.
-/
namespace HashedTree.LaidTables
open SettingTree

variable {way rest names : List String} {name other : String} {tree target value : SettingTree}
  {members layer : List (String × SettingTree)}

def isTable : SettingTree → Bool
  | .table _ _ => true
  | _ => false

theorem exists_of_isTable (h : isTable tree = true) :
    ∃ origin members, tree = .table origin members := by
  cases tree with
  | table origin members => exact ⟨origin, members, rfl⟩
  | null | boolean | integer | real | text | array => cases h

/-- What stands at the end of a way. -/
def at? : List String → SettingTree → Option SettingTree
  | [], tree => some tree
  | name :: rest, tree => (tree.member? name).bind (at? rest)

/-- What a tree that is to be laid over another states at the end of a way: of repeated names, the
last one counts that leads there. -/
def stated? : List String → SettingTree → Option SettingTree
  | [], tree => some tree
  | name :: rest, tree =>
    tree.members.reverse.findSome? fun member =>
      if member.1 = name then stated? rest member.2 else none

/-- What a tree states at the end of a way is no table, what it states before the end is one, and
there is no capital letter in their names. -/
def Leads : List String → SettingTree → Prop
  | [], tree => isTable tree = false
  | name :: rest, tree =>
    isTable tree = true ∧ ∀ member ∈ tree.members,
      LetterCase.lowercase member.1 = member.1 ∧ (member.1 = name → Leads rest member.2)

/-! ### One member after the other -/

theorem stated?_nil : stated? (name :: rest) (.table none []) = none := rfl

theorem stated?_cons :
    stated? (name :: rest) (.table none ((other, value) :: members)) =
      (stated? (name :: rest) (.table none members)).or
        (if other = name then stated? rest value else none) := by
  simp only [stated?, SettingTree.members, List.reverse_cons, List.findSome?_append,
    List.findSome?_singleton]

theorem stated?_append (before after : List (String × SettingTree)) :
    stated? (name :: rest) (.table none (before ++ after)) =
      (stated? (name :: rest) (.table none after)).or
        (stated? (name :: rest) (.table none before)) := by
  simp only [stated?, SettingTree.members, List.reverse_append, List.findSome?_append]

theorem at?_withMember :
    at? (name :: rest) (target.withMember other value) =
      if other = name then at? rest value else at? (name :: rest) target := by
  simp only [at?, member?_withMember]
  split <;> rfl

/-- A table that is missing where another one is laid states nothing. -/
theorem at?_within : at? (name :: rest) ((target.member? other).getD empty) =
    at? (other :: name :: rest) target := by
  simp only [at?]
  cases target.member? other <;> rfl

theorem lay_of_not_table (h : isTable tree = false) (lower : LetterCase.lowercase name = name) :
    lay target name tree = target.withMember name tree := by
  cases tree with
  | table origin members => cases h
  | null | boolean | integer | real | text | array => simp only [lay, lower]

theorem lay_table (origin : Option String) (lower : LetterCase.lowercase name = name) :
    lay target name (.table origin members) =
      target.withMember name (layMembers ((target.member? name).getD empty) members) := by
  simp only [lay, lower]

theorem layMembers_append (before after : List (String × SettingTree)) :
    layMembers target (before ++ after) = layMembers (layMembers target before) after := by
  induction before generalizing target with
  | nil => rfl
  | cons member before ih => exact ih

/-! ### The whole table -/

mutual
/-- A tree that is laid over another counts for the ways through its name only. -/
theorem at?_lay : ∀ (tree target : SettingTree) {name head : String} {rest : List String},
    LetterCase.lowercase name = name → (name = head → Leads rest tree) →
    at? (head :: rest) (lay target name tree) =
      (if name = head then stated? rest tree else none).or (at? (head :: rest) target)
  | .table origin members, target, name, head, rest, lower, leads => by
    rw [lay_table origin lower, at?_withMember]
    by_cases here : name = head
    · subst here
      simp only [if_true]
      -- the way goes on, since it does not end at a table
      obtain - | ⟨next, rest⟩ := rest
      · cases leads rfl
      · rw [at?_layMembers members _ (leads rfl).2, at?_within]
        rfl
    · simp only [if_neg here, Option.none_or]
  | .null o, target, name, head, rest, lower, leads
  | .boolean o _, target, name, head, rest, lower, leads
  | .integer o _, target, name, head, rest, lower, leads
  | .real o _, target, name, head, rest, lower, leads
  | .text o _, target, name, head, rest, lower, leads
  | .array o _, target, name, head, rest, lower, leads => by
    rw [lay_of_not_table rfl lower, at?_withMember]
    by_cases here : name = head
    · obtain - | ⟨next, rest⟩ := rest
      · simp only [if_pos here]; rfl
      · cases (leads here).1
    · simp only [if_neg here, Option.none_or]

/-- What a table states last counts, and where it states nothing, what stood there before. -/
theorem at?_layMembers : ∀ (members : List (String × SettingTree)) (target : SettingTree)
    {head : String} {rest : List String},
    (∀ member ∈ members, LetterCase.lowercase member.1 = member.1 ∧
      (member.1 = head → Leads rest member.2)) →
    at? (head :: rest) (layMembers target members) =
      (stated? (head :: rest) (.table none members)).or (at? (head :: rest) target)
  | [], target, head, rest, leads => rfl
  | (name, value) :: members, target, head, rest, leads => by
    obtain ⟨⟨lower, here⟩, later⟩ := List.forall_mem_cons.1 leads
    rw [layMembers, at?_layMembers members _ later, at?_lay value target lower here, stated?_cons,
      Option.or_assoc]
end

/-! ### Keys that are paths -/

/-- A value behind tables that hold nothing else. -/
def nested : List String → SettingTree → SettingTree
  | [], value => value
  | name :: names, value => .table none [(name, nested names value)]

/-- A key that is a path of names acts as a member of the table with these names. -/
inductive Spells : String × SettingTree → String × SettingTree → Prop
  | path {key : String} (name : String) (names : List String) (value : SettingTree)
      (steps : KeyPath.ofKey key = .member name :: names.map .member) :
      Spells (key, value) (name, nested names value)

theorem lay_null (origin : Option String) :
    lay (.null origin) name tree = lay empty name tree := by
  cases tree <;> rfl

/-- What is missing on a path becomes a table, as it does where a table is laid. -/
theorem lay_within : lay ((target.member? other).getD (.null none)) name tree =
    lay ((target.member? other).getD empty) name tree := by
  cases target.member? other with
  | none => exact lay_null none
  | some inner => rfl

theorem layAt_path : ∀ (name : String) (names : List String) (target : SettingTree),
    layAt value (.member name :: names.map .member) target = lay target name (nested names value)
  | _, [], _ => rfl
  | name, next :: names, target => by
    rw [List.map_cons, layAt, layAt_path next names, lay_within]
    · simp only [nested, lay, layMembers]
    · exact fun h => nomatch h

theorem layLayer_eq (spelled : List.Forall₂ Spells layer members) :
    layLayer target layer = layMembers target members := by
  induction spelled generalizing target with
  | nil => rfl
  | cons spells _ ih =>
    obtain ⟨name, names, value, steps⟩ := spells
    have first : layAt value (KeyPath.ofKey _) target = lay target name (nested names value) :=
      (congrArg (layAt value · target) steps).trans (layAt_path name names target)
    rw [layMembers, ← first]
    exact ih

/-- A single value is stated at the end of its own way and of no other, if neither way goes on
where the other one ends. -/
theorem stated?_nested : ∀ {names way : List String}, (names <+: way → names = way) →
    (way <+: names → names = way) →
    stated? way (nested names value) = if names = way then some value else none
  | [], [], _, _ => rfl
  | [], _ :: way, short, _ => nomatch short (List.nil_prefix)
  | _ :: names, [], _, short => nomatch short (List.nil_prefix)
  | name :: names, other :: way, longer, shorter => by
    rw [nested, stated?_cons, stated?_nil, Option.none_or]
    by_cases same : name = other
    · subst same
      rw [if_pos rfl, stated?_nested]
      · simp only [List.cons.injEq, true_and]
      · exact fun h => (List.cons.inj (longer ((List.prefix_cons_inj name).2 h))).2
      · exact fun h => (List.cons.inj (shorter ((List.prefix_cons_inj name).2 h))).2
    · rw [if_neg same, if_neg fun h => same (List.cons.inj h).1]

end HashedTree.LaidTables
