/-! # Tables of named values, as lists in which a name stands once -/
namespace HashedTree.NamedTable

variable {α : Type}

def find? (name : String) : List (String × α) → Option α
  | [] => none
  | (other, value) :: rest => if other = name then some value else find? name rest

/-- The table with a value set; a value that was there before is replaced where it stood. -/
def put (name : String) (value : α) : List (String × α) → List (String × α)
  | [] => [(name, value)]
  | (other, old) :: rest =>
    if other = name then (name, value) :: rest else (other, old) :: put name value rest

theorem find?_put (name other : String) (value : α) (table : List (String × α)) :
    find? other (put name value table) = if name = other then some value else find? other table := by
  induction table with
  | nil => simp [put, find?]
  | cons entry rest ih =>
    obtain ⟨key, old⟩ := entry
    by_cases h : key = name
    · subst h
      by_cases g : key = other <;> simp [put, find?, g]
    · by_cases g : key = other
      · subst g
        simp [put, find?, h, Ne.symm h]
      · simp [put, find?, h, g, ih]

theorem find?_append (name : String) (before after : List (String × α)) :
    find? name (before ++ after) = (find? name before).or (find? name after) := by
  induction before with
  | nil => rfl
  | cons entry before ih =>
    simp only [List.cons_append, find?, ih]
    split <;> rfl

theorem mem_of_find? {name : String} {value : α} {table : List (String × α)}
    (h : find? name table = some value) : (name, value) ∈ table := by
  induction table with
  | nil => cases h
  | cons entry rest ih =>
    rw [find?] at h
    split at h
    · next same =>
      cases h
      cases same
      exact List.mem_cons_self
    · exact List.mem_cons_of_mem _ (ih h)

theorem mem_put {name : String} {value : α} {table : List (String × α)} {entry : String × α}
    (h : entry ∈ put name value table) : entry = (name, value) ∨ entry ∈ table := by
  induction table with
  | nil => exact .inl (List.mem_singleton.1 h)
  | cons first rest ih =>
    rw [put] at h
    split at h
    · exact (List.mem_cons.1 h).imp_right (List.mem_cons_of_mem first)
    · obtain rfl | h := List.mem_cons.1 h
      · exact .inr List.mem_cons_self
      · exact (ih h).imp_right (List.mem_cons_of_mem first)

end HashedTree.NamedTable
