import HashedTree.FileSystem
import HashedTree.Proofs.Outcomes
import Mathlib.Tactic.SplitIfs

/-!
# A path continued by the name of an entry

A path that leads to a directory leads on to the entries of this directory when their names are
joined to it: the links on the way are the same, so only the length of the path and the right to
search the directory stand between it and the entry. What is found at the end of a path stands
somewhere in the file system.
-/
namespace HashedTree.PathResolution
open ByteBlocks PathText FileSystem Outcomes

/-- What an entry of a directory can be called. -/
structure ProperName (name : Bytes) : Prop where
  nonempty : name ≠ []
  notHere : name ≠ here
  notParent : name ≠ parent
  noSlash : slash ∉ name
  noZero : 0 ∉ name
  length_le : name.length ≤ nameLimit

instance (name : Bytes) : Decidable (ProperName name) :=
  decidable_of_iff (name ≠ [] ∧ name ≠ here ∧ name ≠ parent ∧ slash ∉ name ∧ 0 ∉ name ∧
      name.length ≤ nameLimit)
    ⟨fun ⟨h₁, h₂, h₃, h₄, h₅, h₆⟩ => ⟨h₁, h₂, h₃, h₄, h₅, h₆⟩,
      fun ⟨h₁, h₂, h₃, h₄, h₅, h₆⟩ => ⟨h₁, h₂, h₃, h₄, h₅, h₆⟩⟩

/-- Every directory has entries of proper names, and no two of one name. -/
inductive WellNamed : Inode → Prop where
  | file (mode : Nat) (content : Bytes) : WellNamed (.file mode content)
  | directory (mode : Nat) (entries : List (Bytes × Inode))
      (distinct : (entries.map Prod.fst).Nodup)
      (proper : ∀ entry ∈ entries, ProperName entry.1)
      (beneath : ∀ entry ∈ entries, WellNamed entry.2) : WellNamed (.directory mode entries)
  | symlink (target : Bytes) : WellNamed (.symlink target)
  | special (mode : Nat) : WellNamed (.special mode)

theorem WellNamed.of_mem_entries {inode : Inode} (h : WellNamed inode) :
    ∀ entry ∈ inode.entries, WellNamed entry.2 := by
  cases h with
  | directory mode entries distinct proper beneath => exact beneath
  | file mode content => nofun
  | symlink target => nofun
  | special mode => nofun

theorem mem_of_child? {inode child : Inode} {name : Bytes} (h : inode.child? name = some child) :
    (name, child) ∈ inode.entries := by
  rw [Inode.child?, Option.map_eq_some_iff] at h
  obtain ⟨⟨found, child⟩, hfind, rfl⟩ := h
  have hname : found = name := by simpa using List.find?_some hfind
  exact hname ▸ List.mem_of_find?_eq_some hfind

theorem of_child? {P : Inode → Prop} {inode child : Inode} {name : Bytes}
    (entries : ∀ entry ∈ inode.entries, P entry.2) (hchild : inode.child? name = some child) :
    P child := entries _ (mem_of_child? hchild)

/-- What passes on to the entries of directories holds of everything beneath. -/
theorem of_at? {P : Inode → Prop} (entries : ∀ inode, P inode → ∀ entry ∈ inode.entries, P entry.2)
    {inode below : Inode} {names : List Bytes} (h : P inode) (hat : inode.at? names = some below) :
    P below := by
  induction names generalizing inode with
  | nil => exact Option.some.inj hat ▸ h
  | cons name rest ih =>
    obtain ⟨child, hchild, hrest⟩ := Option.bind_eq_some_iff.mp hat
    exact ih (of_child? (entries inode h) hchild) hrest

/-- Every entry of a directory is the one that its name leads to. -/
theorem child?_of_mem {mode : Nat} {entries : List (Bytes × Inode)} {name : Bytes} {inode : Inode}
    (distinct : (entries.map Prod.fst).Nodup) (hmem : (name, inode) ∈ entries) :
    (Inode.directory mode entries).child? name = some inode := by
  rw [Inode.child?, Inode.entries, Option.map_eq_some_iff]
  refine ⟨(name, inode), ?_, rfl⟩
  induction entries with
  | nil => cases hmem
  | cons entry rest ih =>
    rw [List.map_cons, List.nodup_cons] at distinct
    rcases List.mem_cons.mp hmem with rfl | hrest
    · exact List.find?_cons_of_pos (by simp)
    · have hne : entry.1 ≠ name := fun heq =>
        distinct.1 (heq ▸ List.mem_map_of_mem (f := Prod.fst) hrest)
      rw [List.find?_cons_of_neg (by simpa using hne), ih distinct.2 hrest]

theorem split_ne_nil (path : Bytes) : split path ≠ [] := by
  cases path with
  | nil => simp [split]
  | cons b rest =>
    rw [split]
    split
    · exact List.cons_ne_nil _ _
    · split <;> exact List.cons_ne_nil _ _

theorem split_of_notMem {name : Bytes} (h : slash ∉ name) : split name = [name] := by
  induction name with
  | nil => rfl
  | cons b rest ih =>
    rw [List.mem_cons, not_or] at h
    rw [split, if_neg (Ne.symm h.1), ih h.2]

theorem split_append_slash (path rest : Bytes) :
    split (path ++ slash :: rest) = split path ++ split rest := by
  induction path with
  | nil => simp [split]
  | cons b path ih =>
    by_cases hb : b = slash
    · simp [split, hb, ih]
    · rw [List.cons_append, split, if_neg hb, split, if_neg hb, ih]
      cases hpath : split path with
      | nil => exact absurd hpath (split_ne_nil path)
      | cons first others => rfl

section Joining
variable {path name : Bytes}

theorem ProperName.components (proper : ProperName name) : components name = [name] := by
  simp [PathText.components, split_of_notMem proper.noSlash, proper.nonempty]

theorem ProperName.join_eq (proper : ProperName name) :
    join path name =
      if path.isEmpty ∨ path.getLast? = some slash then path ++ name else path ++ slash :: name := by
  have habsolute : isAbsolute name = false := by
    have hhead : name.head? ≠ some slash := fun h => proper.noSlash (List.mem_of_head? h)
    simpa [isAbsolute] using hhead
  rw [join, habsolute, if_neg Bool.false_ne_true]

theorem components_join (path : Bytes) (proper : ProperName name) :
    components (join path name) = components path ++ [name] := by
  have hname := proper.components
  rw [proper.join_eq]
  split
  · next h =>
    rcases h with hempty | hlast
    · rw [List.isEmpty_iff.mp hempty, List.nil_append, hname]
      rfl
    · obtain ⟨front, rfl⟩ := List.getLast?_eq_some_iff.mp hlast
      have hfront : components (front ++ [slash]) = components front := by
        simp [PathText.components, split_append_slash, split]
      rw [hfront, List.append_assoc, List.singleton_append, PathText.components,
        split_append_slash, List.filter_append]
      exact congrArg _ hname
  · rw [PathText.components, split_append_slash, List.filter_append]
    exact congrArg _ hname

theorem ProperName.getLast?_join (proper : ProperName name) :
    (join path name).getLast? = name.getLast? := by
  have hlast : ∃ b, name.getLast? = some b := by
    simpa [← Option.isSome_iff_exists] using proper.nonempty
  obtain ⟨b, hb⟩ := hlast
  rw [proper.join_eq]
  split <;> simp [List.getLast?_append, List.getLast?_cons, hb]

theorem endsInSlash_join (path : Bytes) (proper : ProperName name) :
    endsInSlash (join path name) = false := by
  have hlast : name.getLast? ≠ some slash := fun h => proper.noSlash (List.mem_of_getLast? h)
  simp [endsInSlash, proper.getLast?_join, hlast]

theorem isAbsolute_join (path : Bytes) (proper : ProperName name) :
    isAbsolute (join path name) = isAbsolute path := by
  have hhead : name.head? ≠ some slash := fun h => proper.noSlash (List.mem_of_head? h)
  rw [proper.join_eq]
  cases path with
  | nil => simpa [isAbsolute] using hhead
  | cons b rest => split <;> rfl

theorem zero_mem_join (proper : ProperName name) : 0 ∈ join path name ↔ 0 ∈ path := by
  rw [proper.join_eq]
  split <;> simp [proper.noZero, slash]

theorem join_ne_nil (path : Bytes) (proper : ProperName name) : join path name ≠ [] := by
  rw [proper.join_eq]
  split <;> simp [proper.nonempty]

theorem fileName?_join (path : Bytes) (proper : ProperName name) :
    fileName? (join path name) = some name := by
  have hproper : PathText.proper (join path name) = PathText.proper path ++ [name] := by
    simp [PathText.proper, components_join path proper, proper.notHere]
  rw [fileName?, hproper, List.getLast?_concat]
  exact if_neg proper.notParent

end Joining

theorem at?_append (inode : Inode) (names rest : List Bytes) :
    inode.at? (names ++ rest) = (inode.at? names).bind (·.at? rest) := by
  induction names generalizing inode with
  | nil => rfl
  | cons name names ih =>
    simp only [List.cons_append, Inode.at?]
    cases inode.child? name with
    | none => rfl
    | some child => exact ih child

section Walking
variable {fs : FileSystem} {divert divert' : Route → Except SystemError Place}
  {position last names rest more : List Bytes} {name target : Bytes} {mode : Nat}
  {entries : List (Bytes × Inode)} {directory inode : Inode} {followLast wants wants' : Bool}

theorem at?_concat (hposition : fs.root.at? position = some directory)
    (hchild : directory.child? name = some inode) :
    fs.root.at? (position ++ [name]) = some inode := by
  rw [at?_append, hposition, Option.bind_some, Inode.at?, hchild]
  rfl

theorem walkUntilLink_nil (hposition : fs.root.at? position = some inode) :
    fs.walkUntilLink divert followLast wants position [] = .ok (.found position inode) := by
  rw [walkUntilLink, hposition]

/-- A name that is looked for among the entries of a directory. -/
structure Sought (name : Bytes) : Prop where
  notHere : name ≠ here
  notParent : name ≠ parent
  length_le : ¬nameLimit < name.length

/-- How a walk goes on from a directory by one more name, where it ends at some place. -/
inductive Passes (fs : FileSystem) (divert : Route → Except SystemError Place)
    (followLast wants : Bool) (position : List Bytes) (directory : Inode) (name : Bytes)
    (rest : List Bytes) (place : Place) : Prop where
  | stays (isHere : name = here)
      (onward : fs.walkUntilLink divert followLast wants position rest = .ok place)
  | leaves (notHere : name ≠ here) (isParent : name = parent)
      (onward : fs.walkUntilLink divert followLast wants position.dropLast rest = .ok place)
  | misses (sought : Sought name) (absent : directory.child? name = none) (last : rest = [])
      (missing : .missing position name wants = place)
  | ends {target : Bytes} (sought : Sought name)
      (hchild : directory.child? name = some (.symlink target))
      (last : rest = [] ∧ followLast = false ∧ wants = false)
      (found : .found (position ++ [name]) (.symlink target) = place)
  | diverts {target : Bytes} (sought : Sought name)
      (hchild : directory.child? name = some (.symlink target))
      (follows : rest ≠ [] ∨ followLast ∨ wants)
      (onward : divert ⟨(route position target).start, (route position target).components ++ rest,
        if rest.isEmpty then (route position target).wantsDirectory || wants else wants⟩ = .ok place)
  | enters {inode : Inode} (sought : Sought name) (hchild : directory.child? name = some inode)
      (noLink : ∀ target, inode ≠ .symlink target)
      (enters : inode.isDirectory ∨ rest = [] ∧ wants = false)
      (onward : fs.walkUntilLink divert followLast wants (position ++ [name]) rest = .ok place)

theorem passes_of_walkUntilLink {place : Place}
    (h : fs.walkUntilLink divert followLast wants position (name :: rest) = .ok place) :
    ∃ mode entries, fs.root.at? position = some (.directory mode entries) ∧ fs.maySearch mode ∧
      Passes fs divert followLast wants position (.directory mode entries) name rest place := by
  rw [walkUntilLink] at h
  split at h
  · rename_i mode entries hposition
    split at h
    · cases h
    · rename_i hsearch
      refine ⟨mode, entries, hposition, by simpa using hsearch, ?_⟩
      split at h
      · rename_i hhere
        exact .stays hhere h
      · rename_i hhere
        split at h
        · rename_i hparent
          exact .leaves hhere hparent h
        · rename_i hparent
          split at h
          · cases h
          · rename_i hlength
            have sought : Sought name := ⟨hhere, hparent, hlength⟩
            split at h
            · rename_i absent
              split at h
              · rename_i last
                exact .misses sought absent (List.isEmpty_iff.mp last) (Except.ok.inj h)
              · cases h
            · rename_i target hchild
              split at h
              · rename_i last
                exact .ends sought hchild (by simpa using last) (Except.ok.inj h)
              · rename_i follows
                refine .diverts sought hchild ?_ h
                simpa [Classical.or_iff_not_imp_left] using follows
            · rename_i inode noLink hchild
              split at h
              · rename_i enters
                exact .enters sought hchild noLink (by simpa using enters) h
              · cases h
  · cases h
  · cases h

section Forward
variable (hposition : fs.root.at? position = some (.directory mode entries))
  (search : fs.maySearch mode)
include hposition search

theorem walkUntilLink_here :
    fs.walkUntilLink divert followLast wants position (here :: rest) =
      fs.walkUntilLink divert followLast wants position rest := by
  rw [walkUntilLink, hposition]
  simp [search]

theorem walkUntilLink_parent :
    fs.walkUntilLink divert followLast wants position (parent :: rest) =
      fs.walkUntilLink divert followLast wants position.dropLast rest := by
  rw [walkUntilLink, hposition]
  have hne : parent ≠ here := by decide
  simp [search, hne]

theorem walkUntilLink_link (sought : Sought name)
    (hchild : (Inode.directory mode entries).child? name = some (.symlink target))
    (follows : rest ≠ [] ∨ followLast ∨ wants) :
    fs.walkUntilLink divert followLast wants position (name :: rest) =
      divert ⟨(route position target).start, (route position target).components ++ rest,
        if rest.isEmpty then (route position target).wantsDirectory || wants else wants⟩ := by
  obtain ⟨notHere, notParent, length_le⟩ := sought
  have hfollows : ¬(rest.isEmpty ∧ !followLast ∧ !wants) := by
    rcases follows with h | h | h <;> simp [h]
  rw [walkUntilLink, hposition]
  simp only [search, Bool.not_true, Bool.false_eq_true, if_false, if_neg notHere, if_neg notParent,
    if_neg length_le, hchild, if_neg hfollows]

theorem walkUntilLink_last_link (sought : Sought name)
    (hchild : (Inode.directory mode entries).child? name = some (.symlink target)) :
    fs.walkUntilLink divert false false position [name] =
      .ok (.found (position ++ [name]) (.symlink target)) := by
  obtain ⟨notHere, notParent, length_le⟩ := sought
  rw [walkUntilLink, hposition]
  simp [search, notHere, notParent, length_le, hchild]

theorem walkUntilLink_entry (sought : Sought name)
    (hchild : (Inode.directory mode entries).child? name = some inode)
    (noLink : ∀ target, inode ≠ .symlink target)
    (enters : inode.isDirectory ∨ rest = [] ∧ wants = false) :
    fs.walkUntilLink divert followLast wants position (name :: rest) =
      fs.walkUntilLink divert followLast wants (position ++ [name]) rest := by
  obtain ⟨notHere, notParent, length_le⟩ := sought
  have henters : inode.isDirectory ∨ rest.isEmpty ∧ !wants := by simpa using enters
  rw [walkUntilLink, hposition]
  cases inode with
  | symlink target => exact absurd rfl (noLink target)
  | _ =>
    simp only [search, Bool.not_true, Bool.false_eq_true, if_false, if_neg notHere,
      if_neg notParent, if_neg length_le, hchild, if_pos henters]

end Forward

/-- Links keep a walk inside the file system: it ends at what its names lead to from the root. -/
private def Faithful (fs : FileSystem) (result : Except SystemError Place) : Prop :=
  ∀ names inode, result = .ok (.found names inode) → fs.root.at? names = some inode

private theorem faithful_walkUntilLink (onward : ∀ route, Faithful fs (divert route))
    (position names : List Bytes) :
    Faithful fs (fs.walkUntilLink divert followLast wants position names) := by
  induction names generalizing position with
  | nil =>
    intro names inode h
    rw [walkUntilLink] at h
    split at h
    · rename_i found hfound
      simp only [Except.ok.injEq, Place.found.injEq] at h
      rw [← h.1, ← h.2, hfound]
    · cases h
  | cons name rest ih =>
    intro names inode h
    obtain ⟨mode, entries, hposition, -, hpasses⟩ := passes_of_walkUntilLink h
    cases hpasses with
    | stays _ h => exact ih _ names inode h
    | leaves _ _ h => exact ih _ names inode h
    | misses _ _ _ h => cases h
    | ends _ hchild _ h =>
      simp only [Place.found.injEq] at h
      rw [← h.1, ← h.2, at?_concat hposition hchild]
    | diverts _ _ _ h => exact onward _ names inode h
    | enters _ _ _ _ h => exact ih _ names inode h

private theorem faithful_walk (fs : FileSystem) (followLast : Bool) (links : Nat) (route : Route) :
    Faithful fs (fs.walk followLast links route) := by
  induction links generalizing route with
  | zero => exact faithful_walkUntilLink (fun _ _ _ h => by cases h) _ _
  | succ links ih => exact faithful_walkUntilLink ih _ _

/-- A walk that ends at a directory goes on from there when more names follow, if the walks behind
links do. -/
private theorem walkUntilLink_append (hmore : more ≠ []) (isDirectory : directory.isDirectory)
    (onward : ∀ start rest wants, divert ⟨start, rest, wants⟩ = .ok (.found last directory) →
      ∃ final, divert' ⟨start, rest ++ more, wants'⟩ =
        fs.walkUntilLink final followLast wants' last more)
    (h : fs.walkUntilLink divert true wants position names = .ok (.found last directory)) :
    ∃ final, fs.walkUntilLink divert' followLast wants' position (names ++ more) =
      fs.walkUntilLink final followLast wants' last more := by
  induction names generalizing position with
  | nil =>
    rw [walkUntilLink] at h
    split at h
    · simp only [Except.ok.injEq, Place.found.injEq] at h
      exact ⟨divert', by rw [h.1, List.nil_append]⟩
    · cases h
  | cons name rest ih =>
    obtain ⟨mode, entries, hposition, search, hpasses⟩ := passes_of_walkUntilLink h
    rw [List.cons_append]
    cases hpasses with
    | stays isHere h =>
      rw [isHere, walkUntilLink_here hposition search]
      exact ih h
    | leaves _ isParent h =>
      rw [isParent, walkUntilLink_parent hposition search]
      exact ih h
    | misses _ _ _ h => cases h
    | ends _ _ _ h =>
      simp only [Place.found.injEq] at h
      rw [← h.2] at isDirectory
      cases isDirectory
    | diverts sought hchild _ h =>
      rw [walkUntilLink_link hposition search sought hchild (.inl (by simp [hmore])),
        if_neg (by simp [hmore]), ← List.append_assoc]
      exact onward _ _ _ h
    | @enters inode sought hchild noLink enters h =>
      have hinode : inode.isDirectory := by
        obtain hinode | ⟨rfl, -⟩ := enters
        · exact hinode
        · rw [walkUntilLink_nil (at?_concat hposition hchild)] at h
          simp only [Except.ok.injEq, Place.found.injEq] at h
          rwa [h.2]
      rw [walkUntilLink_entry hposition search sought hchild noLink (.inl hinode)]
      exact ih h

private theorem walk_append {links : Nat} {start : List Bytes} (hmore : more ≠ [])
    (isDirectory : directory.isDirectory)
    (h : fs.walk true links ⟨start, names, wants⟩ = .ok (.found last directory)) :
    ∃ final, fs.walk followLast links ⟨start, names ++ more, wants'⟩ =
      fs.walkUntilLink final followLast wants' last more := by
  induction links generalizing start names wants with
  | zero =>
    refine walkUntilLink_append hmore isDirectory (fun start rest wants h => ?_) h
    cases h
  | succ links ih =>
    exact walkUntilLink_append hmore isDirectory (fun start rest wants h => ih h) h

end Walking

theorem at?_of_resolve {fs : FileSystem} {followLast : Bool} {path : Bytes}
    {position : List Bytes} {inode : Inode}
    (h : fs.resolve followLast path = .ok (.found position inode)) :
    fs.root.at? position = some inode := by
  rw [resolve, bind_eq_ok] at h
  obtain ⟨route, -, hwalk⟩ := h
  exact faithful_walk fs followLast _ route position inode hwalk

theorem lookup_eq_ok {fs : FileSystem} {followLast : Bool} {path : Bytes} {inode : Inode} :
    fs.lookup followLast path = .ok inode ↔
      ∃ position, fs.resolve followLast path = .ok (.found position inode) := by
  rw [lookup, bind_eq_ok]
  constructor
  · rintro ⟨place, hplace, hfound⟩
    cases place with
    | found position found =>
      obtain rfl : found = inode := Except.ok.inj hfound
      exact ⟨position, hplace⟩
    | missing directory name asDirectory => cases hfound
  · rintro ⟨position, hplace⟩
    exact ⟨.found position inode, hplace, rfl⟩


section Resolving
variable {fs : FileSystem} {path name : Bytes} {position : List Bytes} {mode : Nat}
  {entries : List (Bytes × Inode)} {inode : Inode} {followLast : Bool}

theorem route?_eq_ok {r : Route} (h : fs.route? path = .ok r) :
    0 ∉ path ∧ path ≠ [] ∧ path.length < pathLimit ∧ r = route fs.workingDirectory path := by
  rw [route?] at h
  split_ifs at h with hzero hempty hlength
  exact ⟨by simpa using hzero, by simpa using hempty, by omega, (Except.ok.inj h).symm⟩

theorem length_lt_of_resolve {place : Place} (h : fs.resolve followLast path = .ok place) :
    path.length < pathLimit := by
  rw [resolve, bind_eq_ok] at h
  obtain ⟨r, hroute, -⟩ := h
  exact (route?_eq_ok hroute).2.2.1

theorem route?_join (proper : ProperName name) {r : Route} (h : fs.route? path = .ok r) :
    fs.route? (join path name) =
      if pathLimit ≤ (join path name).length then .error .nameTooLong
      else .ok ⟨r.start, r.components ++ [name], false⟩ := by
  obtain ⟨hzero, -, -, rfl⟩ := route?_eq_ok h
  have hzeroJoin : (join path name).contains 0 = false := by
    simpa using mt (zero_mem_join proper).mp hzero
  have hemptyJoin : (join path name).isEmpty = false := by
    simpa using join_ne_nil path proper
  rw [route?, hzeroJoin, hemptyJoin, if_neg Bool.false_ne_true, if_neg Bool.false_ne_true, route,
    route, isAbsolute_join path proper, components_join path proper, endsInSlash_join path proper]

/-- A path that leads to a directory leads on to an entry when the entry's name is joined to it,
unless the path becomes too long or the directory may not be searched. -/
theorem resolve_join (followLast : Bool)
    (hdirectory : fs.resolve true path = .ok (.found position (.directory mode entries)))
    (proper : ProperName name) (hchild : (Inode.directory mode entries).child? name = some inode)
    (unfollowed : followLast = false ∨ ∀ target, inode ≠ .symlink target) :
    fs.resolve followLast (join path name) =
      if pathLimit ≤ (join path name).length then .error .nameTooLong
      else if fs.maySearch mode then .ok (.found (position ++ [name]) inode)
      else .error .permissionDenied := by
  have hposition := at?_of_resolve hdirectory
  have hnext := at?_concat hposition hchild
  rw [resolve, bind_eq_ok] at hdirectory
  obtain ⟨r, hroute, hwalk⟩ := hdirectory
  rw [resolve, route?_join proper hroute]
  split
  · rfl
  rw [ok_bind]
  obtain ⟨final, hfinal⟩ : ∃ final,
      fs.walk followLast linkLimit ⟨r.start, r.components ++ [name], false⟩ =
        fs.walkUntilLink final followLast false position [name] :=
    walk_append (List.cons_ne_nil name []) rfl hwalk
  rw [hfinal]
  have sought : Sought name := ⟨proper.notHere, proper.notParent, Nat.not_lt.mpr proper.length_le⟩
  by_cases search : fs.maySearch mode
  · rw [if_pos search]
    cases inode with
    | symlink target =>
      obtain rfl : followLast = false := by simpa using unfollowed
      exact walkUntilLink_last_link hposition search sought hchild
    | _ =>
      rw [walkUntilLink_entry hposition search sought hchild (by simp) (.inr ⟨rfl, rfl⟩)]
      exact walkUntilLink_nil hnext
  · rw [if_neg search, walkUntilLink, hposition]
    simp [search]

end Resolving

end HashedTree.PathResolution
