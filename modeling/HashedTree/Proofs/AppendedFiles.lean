import HashedTree.FileSystemChanges
import HashedTree.Proofs.PathResolution

/-!
# Files that are appended to

A file that is appended to leaves everything where it was: every path leads where it led, and all
other files have their contents. So what is appended piece by piece stands at the end of the file in
one piece. A file that was appended to can be appended to again.
-/
namespace HashedTree.AppendedFiles
open ByteBlocks FileSystem Outcomes PathResolution

/-! ### Nodes at their places -/

/-- Alike but for the content of a file or the entries of a directory. -/
inductive SameKind : Inode → Inode → Prop
  | file (mode : Nat) (content content' : Bytes) :
      SameKind (.file mode content) (.file mode content')
  | directory (mode : Nat) (entries entries' : List (Bytes × Inode)) :
      SameKind (.directory mode entries) (.directory mode entries')
  | symlink (target : Bytes) : SameKind (.symlink target) (.symlink target)
  | special (mode : Nat) : SameKind (.special mode) (.special mode)

theorem SameKind.refl (inode : Inode) : SameKind inode inode := by
  cases inode with
  | file mode content => exact .file mode content content
  | directory mode entries => exact .directory mode entries entries
  | symlink target => exact .symlink target
  | special mode => exact .special mode

theorem SameKind.trans {inode inode' inode'' : Inode} (h : SameKind inode inode')
    (h' : SameKind inode' inode'') : SameKind inode inode'' := by
  cases h with
  | file mode content => cases h' with | file => exact .file ..
  | directory mode entries => cases h' with | directory => exact .directory ..
  | symlink target => exact h'
  | special mode => exact h'

theorem SameKind.isDirectory_eq {inode inode' : Inode} (h : SameKind inode inode') :
    inode'.isDirectory = inode.isDirectory := by
  cases h <;> rfl

theorem SameKind.noLink {inode inode' : Inode} (h : SameKind inode inode')
    (noLink : ∀ target, inode ≠ .symlink target) : ∀ target, inode' ≠ .symlink target := by
  cases h with
  | symlink target => exact noLink
  | file | directory | special => nofun

section Changing
variable {inode child target found : Inode} {name other : Bytes} {names others rest : List Bytes}
  {f : Inode → Inode} {mode : Nat} {entries : List (Bytes × Inode)}

theorem isDirectory_of_child? (h : inode.child? name = some child) :
    ∃ mode entries, inode = .directory mode entries := by
  cases inode with
  | directory mode entries => exact ⟨mode, entries, rfl⟩
  | file | symlink | special => cases h

theorem put_directory (mode : Nat) (entries : List (Bytes × Inode)) (name : Bytes) (child : Inode) :
    (Inode.directory mode entries).put name child = .directory mode
      (if entries.any (·.1 = name) then entries.map fun e => if e.1 = name then (name, child) else e
        else entries ++ [(name, child)]) := by
  rw [Inode.put, Inode.entries]
  split <;> rfl

/-- Setting an entry changes what stands under its name and nothing else. -/
theorem child?_put (mode : Nat) (entries : List (Bytes × Inode)) (child : Inode)
    (name other : Bytes) :
    ((Inode.directory mode entries).put name child).child? other =
      if name = other then some child else (Inode.directory mode entries).child? other := by
  rw [put_directory]
  split
  case isTrue present =>
    have named : ∀ e : Bytes × Inode, (if e.1 = name then (name, child) else e).1 = e.1 := by
      intro e
      split
      case isTrue same => exact same.symm
      case isFalse => rfl
    simp only [Inode.child?, Inode.entries, List.find?_map, Function.comp_def, named]
    cases found : entries.find? (·.1 = other) with
    | none =>
      have different : name ≠ other := by
        rintro rfl
        obtain ⟨e, he, same⟩ := List.any_eq_true.mp present
        exact List.find?_eq_none.mp found e he same
      rw [if_neg different]
      rfl
    | some e =>
      have same : e.1 = other := by simpa using List.find?_some found
      simp only [Option.map_some, same, eq_comm]
      split <;> rfl
  case isFalse absent =>
    simp only [Inode.child?, Inode.entries, List.find?_append]
    by_cases same : name = other
    · subst same
      have none : entries.find? (·.1 = name) = none :=
        List.find?_eq_none.mpr fun e he same => absent (List.any_eq_true.mpr ⟨e, he, same⟩)
      simp [none]
    · simp [same]

theorem modifyAt_cons (h : inode.child? name = some child) :
    inode.modifyAt f (name :: rest) = inode.put name (child.modifyAt f rest) := by
  rw [Inode.modifyAt, h]

/-- What is changed is found where it was. -/
theorem at?_modifyAt (h : inode.at? names = some target) (rest : List Bytes) :
    (inode.modifyAt f names).at? (names ++ rest) = (f target).at? rest := by
  induction names generalizing inode with
  | nil =>
    obtain rfl := Option.some.inj h
    rfl
  | cons name names ih =>
    obtain ⟨child, hchild, hnames⟩ := Option.bind_eq_some_iff.mp h
    obtain ⟨mode, entries, rfl⟩ := isDirectory_of_child? hchild
    rw [modifyAt_cons hchild, List.cons_append, Inode.at?, child?_put, if_pos rfl,
      Option.bind_some, ih hnames]

/-- All else stays, except that the directories on the way have another entry. -/
theorem at?_modifyAt_off (h : inode.at? names = some target) (off : ¬names <+: others)
    (hfound : inode.at? others = some found) :
    ∃ found', (inode.modifyAt f names).at? others = some found' ∧ SameKind found found' ∧
      (¬others <+: names → found' = found) := by
  induction names generalizing inode others with
  | nil => exact absurd List.nil_prefix off
  | cons name names ih =>
    obtain ⟨child, hchild, hnames⟩ := Option.bind_eq_some_iff.mp h
    obtain ⟨mode, entries, rfl⟩ := isDirectory_of_child? hchild
    rw [modifyAt_cons hchild]
    cases others with
    | nil =>
      obtain rfl := Option.some.inj hfound
      refine ⟨_, rfl, ?_, fun h => absurd List.nil_prefix h⟩
      rw [Inode.put]
      split <;> exact .directory ..
    | cons other others =>
      obtain ⟨next, hnext, hothers⟩ := Option.bind_eq_some_iff.mp hfound
      rw [Inode.at?, child?_put]
      by_cases same : name = other
      · subst same
        obtain rfl := Option.some.inj (hchild.symm.trans hnext)
        have off' : ¬names <+: others := fun inside => off ((List.prefix_cons_inj name).mpr inside)
        obtain ⟨found', hfound', kind, unchanged⟩ := ih hnames off' hothers
        refine ⟨found', ?_, kind, fun apart => unchanged fun inside => apart ?_⟩
        · rw [if_pos rfl, Option.bind_some, hfound']
        · exact (List.prefix_cons_inj name).mpr inside
      · rw [if_neg same, hnext, Option.bind_some]
        exact ⟨found, hothers, .refl found, fun _ => rfl⟩

end Changing

/-! ### Paths lead where they led -/

/-- Everything stands where it stood, and perhaps something more. -/
structure Keeps (fs fs' : FileSystem) : Prop where
  workingDirectory : fs'.workingDirectory = fs.workingDirectory
  heedsModes : fs'.heedsModes = fs.heedsModes
  stands : ∀ names inode, fs.root.at? names = some inode →
    ∃ inode', fs'.root.at? names = some inode' ∧ SameKind inode inode'

/-- The names of what stands at a place, or would stand there. -/
def namesOf : Place → List Bytes
  | .found names _ => names
  | .missing directory name _ => directory ++ [name]

/-- What was missing at a place is a file now, if no directory was asked for. -/
def Filled (fs : FileSystem) : Place → Prop
  | .found _ _ => True
  | .missing directory name asDirectory => asDirectory = false ∧
      ∃ mode content, fs.root.at? (directory ++ [name]) = some (.file mode content)

theorem Keeps.refl (fs : FileSystem) : Keeps fs fs :=
  ⟨rfl, rfl, fun _ inode h => ⟨inode, h, .refl inode⟩⟩

section Leading
variable {fs fs' fs'' : FileSystem} {divert divert' : Route → Except SystemError Place}
  {position names : List Bytes} {name path : Bytes} {mode : Nat} {inode child directory : Inode}
  {place : Place} {followLast wants : Bool}

theorem Keeps.trans (h : Keeps fs fs') (h' : Keeps fs' fs'') : Keeps fs fs'' where
  workingDirectory := h'.workingDirectory.trans h.workingDirectory
  heedsModes := h'.heedsModes.trans h.heedsModes
  stands names inode hinode := by
    obtain ⟨inode', hinode', kind⟩ := h.stands names inode hinode
    obtain ⟨inode'', hinode'', kind'⟩ := h'.stands names inode' hinode'
    exact ⟨inode'', hinode'', kind.trans kind'⟩

theorem Keeps.maySearch (h : Keeps fs fs') (mode : Nat) : fs'.maySearch mode = fs.maySearch mode := by
  rw [FileSystem.maySearch, FileSystem.maySearch, grants, grants, h.heedsModes]

theorem child?_of_at? (hposition : fs.root.at? position = some directory) :
    directory.child? name = fs.root.at? (position ++ [name]) := by
  rw [at?_append, hposition, Option.bind_some, Inode.at?]
  cases directory.child? name <;> rfl

theorem Keeps.of_child? (h : Keeps fs fs') (hposition : fs.root.at? position = some directory)
    {directory' : Inode} (hposition' : fs'.root.at? position = some directory')
    (hchild : directory.child? name = some child) :
    ∃ child', directory'.child? name = some child' ∧ SameKind child child' := by
  rw [child?_of_at? hposition']
  rw [child?_of_at? hposition] at hchild
  exact h.stands _ _ hchild

/-- A walk ends where it ended, if all walks behind links do. -/
theorem found_walkUntilLink (keeps : Keeps fs fs')
    (onward : ∀ r place, divert r = .ok place → Filled fs' place →
      ∃ inode, divert' r = .ok (.found (namesOf place) inode))
    (h : fs.walkUntilLink divert followLast wants position names = .ok place)
    (filled : Filled fs' place) :
    ∃ inode, fs'.walkUntilLink divert' followLast wants position names =
      .ok (.found (namesOf place) inode) := by
  induction names generalizing position with
  | nil =>
    rw [walkUntilLink] at h
    split at h
    · next inode hposition =>
      obtain ⟨inode', hposition', -⟩ := keeps.stands _ _ hposition
      obtain rfl := Except.ok.inj h
      exact ⟨inode', walkUntilLink_nil hposition'⟩
    · cases h
  | cons name rest ih =>
    obtain ⟨mode, entries, hposition, search, passes⟩ := passes_of_walkUntilLink h
    obtain ⟨directory, hposition', kind⟩ := keeps.stands _ _ hposition
    cases kind with
    | directory mode entries entries' =>
    rw [← keeps.maySearch] at search
    cases passes with
    | stays isHere h =>
      rw [isHere, walkUntilLink_here hposition' search]
      exact ih h
    | leaves _ isParent h =>
      rw [isParent, walkUntilLink_parent hposition' search]
      exact ih h
    | misses sought absent last missing =>
      subst last missing
      obtain ⟨rfl, fileMode, content, hfile⟩ := filled
      rw [walkUntilLink_entry hposition' search sought ((child?_of_at? hposition').trans hfile)
        (by simp) (.inr ⟨rfl, rfl⟩)]
      exact ⟨_, walkUntilLink_nil hfile⟩
    | ends sought hchild last found =>
      obtain ⟨rfl, rfl, rfl⟩ := last
      obtain ⟨child', hchild', kind⟩ := keeps.of_child? hposition hposition' hchild
      cases kind
      subst found
      exact ⟨_, walkUntilLink_last_link hposition' search sought hchild'⟩
    | diverts sought hchild follows h =>
      obtain ⟨child', hchild', kind⟩ := keeps.of_child? hposition hposition' hchild
      cases kind
      rw [walkUntilLink_link hposition' search sought hchild' follows]
      exact onward _ _ h filled
    | enters sought hchild noLink enters h =>
      obtain ⟨child', hchild', kind⟩ := keeps.of_child? hposition hposition' hchild
      rw [walkUntilLink_entry hposition' search sought hchild' (kind.noLink noLink)
        (by rwa [kind.isDirectory_eq])]
      exact ih h

theorem found_walk (keeps : Keeps fs fs') {links : Nat} {r : Route}
    (h : fs.walk followLast links r = .ok place) (filled : Filled fs' place) :
    ∃ inode, fs'.walk followLast links r = .ok (.found (namesOf place) inode) := by
  induction links generalizing r place with
  | zero => exact found_walkUntilLink keeps (fun _ _ h => by cases h) h filled
  | succ links ih => exact found_walkUntilLink keeps (fun _ _ h filled => ih h filled) h filled

/-- A path leads where it led, with what stands there now. -/
theorem Keeps.resolve (keeps : Keeps fs fs') (h : fs.resolve followLast path = .ok place)
    (filled : Filled fs' place) :
    ∃ inode, fs'.resolve followLast path = .ok (.found (namesOf place) inode) ∧
      fs'.root.at? (namesOf place) = some inode := by
  rw [FileSystem.resolve, bind_eq_ok] at h
  obtain ⟨r, hroute, hwalk⟩ := h
  obtain ⟨inode, hfound⟩ := found_walk keeps hwalk filled
  have hresolve : fs'.resolve followLast path = .ok (.found (namesOf place) inode) := by
    rw [FileSystem.resolve, bind_eq_ok]
    refine ⟨r, ?_, hfound⟩
    rw [← hroute, route?, route?, keeps.workingDirectory]
  exact ⟨inode, hresolve, at?_of_resolve hresolve⟩

end Leading

/-! ### Appending -/

/-- A path leads to a file that can be written. -/
structure Writable (fs : FileSystem) (path : Bytes) (names : List Bytes) (mode : Nat)
    (content : Bytes) : Prop where
  leads : fs.resolve true path = .ok (.found names (.file mode content))
  mayWrite : fs.mayWrite mode

/-- What appending to one file came to: it goes on with what was appended, all else stands as it
did. -/
structure Grown (fs fs' : FileSystem) (names : List Bytes) (mode : Nat) (content added : Bytes) :
    Prop where
  keeps : Keeps fs fs'
  file : fs'.root.at? names = some (.file mode (content ++ added))
  others : ∀ others mode content, others ≠ names →
    fs.root.at? others = some (.file mode content) →
      fs'.root.at? others = some (.file mode content)

/-- The file system with another content in the file of these names. -/
def rewritten (fs : FileSystem) (names : List Bytes) (mode : Nat) (content : Bytes) : FileSystem :=
  { fs with root := fs.root.modifyAt (fun _ => .file mode content) names }

section Appending
variable {fs fs' fs'' : FileSystem} {path : Bytes} {names others : List Bytes} {mode : Nat}
  {content added more : Bytes}

/-- What can be told apart by changing it where it is: everything beneath what is changed has to
stay. -/
theorem keeps_modifyAt {target : Inode} {f : Inode → Inode}
    (h : fs.root.at? names = some target)
    (beneath : ∀ rest inode, target.at? rest = some inode →
      ∃ inode', (f target).at? rest = some inode' ∧ SameKind inode inode') :
    Keeps fs { fs with root := fs.root.modifyAt f names } where
  workingDirectory := rfl
  heedsModes := rfl
  stands others inode hinode := by
    by_cases inside : names <+: others
    · obtain ⟨rest, rfl⟩ := inside
      rw [at?_append, h, Option.bind_some] at hinode
      obtain ⟨inode', hinode', kind⟩ := beneath rest inode hinode
      exact ⟨inode', (at?_modifyAt h rest).trans hinode', kind⟩
    · obtain ⟨inode', hinode', kind, -⟩ := at?_modifyAt_off (f := f) h inside hinode
      exact ⟨inode', hinode', kind⟩

theorem nothing_beneath_file {rest : List Bytes} {inode : Inode}
    (h : (Inode.file mode content).at? rest = some inode) : rest = [] := by
  cases rest with
  | nil => rfl
  | cons name rest => cases h

/-- No file stands beneath another one. -/
theorem not_prefix_of_files {mode' : Nat} {content' : Bytes} (different : others ≠ names)
    (h : fs.root.at? names = some (.file mode content))
    (h' : fs.root.at? others = some (.file mode' content')) : ¬names <+: others := by
  rintro ⟨rest, rfl⟩
  rw [at?_append, h, Option.bind_some] at h'
  rw [nothing_beneath_file h', List.append_nil] at different
  exact different rfl

theorem grown_rewritten (h : fs.root.at? names = some (.file mode content)) (added : Bytes) :
    Grown fs (rewritten fs names mode (content ++ added)) names mode content added where
  keeps := by
    refine keeps_modifyAt h fun rest inode hinode => ?_
    obtain rfl := nothing_beneath_file hinode
    obtain rfl := Option.some.inj hinode
    exact ⟨_, rfl, .file ..⟩
  file := by
    have found := at?_modifyAt (f := fun _ => .file mode (content ++ added)) h []
    rwa [List.append_nil] at found
  others others mode' content' different hother := by
    obtain ⟨found, hfound, -, unchanged⟩ := at?_modifyAt_off
      (f := fun _ => .file mode (content ++ added)) h (not_prefix_of_files different h hother) hother
    rw [unchanged (not_prefix_of_files different.symm hother h)] at hfound
    exact hfound

theorem Grown.refl (h : fs.root.at? names = some (.file mode content)) :
    Grown fs fs names mode content [] where
  keeps := .refl fs
  file := by rw [List.append_nil, h]
  others _ _ _ _ hother := hother

theorem Grown.trans (h : Grown fs fs' names mode content added)
    (h' : Grown fs' fs'' names mode (content ++ added) more) :
    Grown fs fs'' names mode content (added ++ more) where
  keeps := h.keeps.trans h'.keeps
  file := by rw [h'.file, List.append_assoc]
  others others mode' content' different hother :=
    h'.others others mode' content' different (h.others others mode' content' different hother)

theorem Writable.appendContent_eq (h : Writable fs path names mode content) (added : Bytes) :
    fs.appendContent path added = .ok (rewritten fs names mode (content ++ added)) := by
  rw [appendContent, changeContent, h.leads, ok_bind]
  exact if_pos h.mayWrite

theorem Grown.writable (grown : Grown fs fs' names mode content added)
    (h : Writable fs path names mode content) :
    Writable fs' path names mode (content ++ added) := by
  obtain ⟨inode, hresolve, hinode⟩ := grown.keeps.resolve h.leads trivial
  obtain rfl := Option.some.inj (grown.file.symm.trans hinode)
  refine ⟨hresolve, ?_⟩
  rw [FileSystem.mayWrite, grants, grown.keeps.heedsModes]
  exact h.mayWrite

/-- More is appended behind what was appended. -/
theorem Grown.append (grown : Grown fs fs' names mode content added)
    (h : Writable fs path names mode content) (more : Bytes) :
    ∃ fs'', fs'.appendContent path more = .ok fs'' ∧
      Grown fs fs'' names mode content (added ++ more) :=
  ⟨_, (grown.writable h).appendContent_eq more, grown.trans (grown_rewritten grown.file more)⟩

theorem contentAt_eq_ok {found : Bytes} :
    fs.contentAt path = .ok found ↔
      ∃ names mode, fs.resolve true path = .ok (.found names (.file mode found)) ∧
        fs.mayRead mode := by
  rw [contentAt, bind_eq_ok]
  constructor
  · rintro ⟨inode, hlookup, hread⟩
    obtain ⟨names, hresolve⟩ := lookup_eq_ok.mp hlookup
    cases inode with
    | file mode content =>
      rw [readInode] at hread
      split at hread
      · next mayRead =>
        cases hread
        exact ⟨names, mode, hresolve, mayRead⟩
      · cases hread
    | directory mode entries | special mode =>
      rw [readInode] at hread
      split at hread <;> cases hread
    | symlink target => cases hread
  · rintro ⟨names, mode, hresolve, mayRead⟩
    exact ⟨_, lookup_eq_ok.mpr ⟨names, hresolve⟩, if_pos mayRead⟩

/-- The content at a path goes on if the path leads to the file that was appended to. -/
theorem Grown.contentAt (grown : Grown fs fs' names mode content added)
    (h : Writable fs path names mode content) {other found : Bytes}
    (hfound : fs.contentAt other = .ok found) :
    fs'.contentAt other = .ok (found ++ if fs.leadAlike other path then added else []) := by
  obtain ⟨others, mode', hresolve, mayRead⟩ := contentAt_eq_ok.mp hfound
  obtain ⟨inode, hresolve', hinode⟩ := grown.keeps.resolve hresolve trivial
  have alike : fs.leadAlike other path = decide (others = names) := by
    rw [leadAlike, hresolve, h.leads]
  have mayRead' : fs'.mayRead mode' := by
    rwa [FileSystem.mayRead, grants, grown.keeps.heedsModes]
  rw [alike]
  by_cases same : others = names
  · subst same
    have whole := at?_of_resolve hresolve
    rw [at?_of_resolve h.leads] at whole
    cases whole
    obtain rfl := Option.some.inj (grown.file.symm.trans hinode)
    rw [decide_eq_true rfl, if_pos rfl]
    exact contentAt_eq_ok.mpr ⟨_, _, hresolve', mayRead'⟩
  · have kept := grown.others others mode' found same (at?_of_resolve hresolve)
    obtain rfl := Option.some.inj (kept.symm.trans hinode)
    rw [decide_eq_false same, if_neg Bool.false_ne_true, List.append_nil]
    exact contentAt_eq_ok.mpr ⟨_, _, hresolve', mayRead'⟩

end Appending

/-! ### A file that was opened -/

section Opening
variable {fs fs' : FileSystem} {divert : Route → Except SystemError Place}
  {position names directory : List Bytes} {name path added : Bytes} {followLast wants asDirectory : Bool}

/-- What is missing stands nowhere. -/
theorem absent_walkUntilLink
    (onward : ∀ r, divert r = .ok (.missing directory name asDirectory) →
      fs.root.at? (directory ++ [name]) = none)
    (h : fs.walkUntilLink divert followLast wants position names =
      .ok (.missing directory name asDirectory)) :
    fs.root.at? (directory ++ [name]) = none := by
  induction names generalizing position with
  | nil =>
    rw [walkUntilLink] at h
    split at h <;> cases h
  | cons next rest ih =>
    obtain ⟨mode, entries, hposition, -, passes⟩ := passes_of_walkUntilLink h
    cases passes with
    | stays _ h => exact ih h
    | leaves _ _ h => exact ih h
    | misses _ absent _ missing =>
      cases missing
      rw [← child?_of_at? hposition, absent]
    | ends _ _ _ found => cases found
    | diverts _ _ _ h => exact onward _ h
    | enters _ _ _ _ h => exact ih h

theorem absent_of_resolve
    (h : fs.resolve followLast path = .ok (.missing directory name asDirectory)) :
    fs.root.at? (directory ++ [name]) = none := by
  rw [FileSystem.resolve, bind_eq_ok] at h
  obtain ⟨r, -, hwalk⟩ := h
  have absent : ∀ links r, fs.walk followLast links r = .ok (.missing directory name asDirectory) →
      fs.root.at? (directory ++ [name]) = none := by
    intro links
    induction links with
    | zero => exact fun r h => absent_walkUntilLink (fun _ h => by cases h) h
    | succ links ih => exact fun r h => absent_walkUntilLink ih h
  exact absent _ r hwalk

theorem mayWrite_fileMode (fs : FileSystem) : fs.mayWrite fileMode := by
  simp [FileSystem.mayWrite, grants, fileMode]

theorem exists_directory_of_mayChange (h : fs.mayChange directory) :
    ∃ mode entries, fs.root.at? directory = some (.directory mode entries) := by
  rw [mayChange] at h
  split at h
  · next inode hinode =>
    cases inode with
    | directory mode entries => exact ⟨mode, entries, hinode⟩
    | file | symlink | special => cases h
  · cases h

/-- The file system with a file set in a directory. -/
def withFile (fs : FileSystem) (directory : List Bytes) (name content : Bytes) : FileSystem :=
  { fs with root := fs.root.modifyAt (·.put name (.file fileMode content)) directory }

/-- A new file leaves everything where it stood, and is found under its name. -/
theorem keeps_withFile {mode : Nat} {entries : List (Bytes × Inode)}
    (h : fs.root.at? directory = some (.directory mode entries))
    (absent : fs.root.at? (directory ++ [name]) = none) (content : Bytes) :
    Keeps fs (withFile fs directory name content) ∧
      (withFile fs directory name content).root.at? (directory ++ [name]) =
        some (.file fileMode content) := by
  rw [← child?_of_at? h] at absent
  constructor
  · refine keeps_modifyAt h fun rest inode hinode => ?_
    cases rest with
    | nil =>
      obtain rfl := Option.some.inj hinode
      exact ⟨_, rfl, put_directory .. ▸ .directory ..⟩
    | cons other rest =>
      have different : name ≠ other := by
        rintro rfl
        rw [Inode.at?, absent] at hinode
        cases hinode
      refine ⟨inode, ?_, .refl inode⟩
      rwa [Inode.at?, child?_put, if_neg different]
  · rw [withFile, at?_modifyAt h, Inode.at?, child?_put, if_pos rfl]
    rfl

/-- A file that was appended to is there, and can be appended to again. -/
theorem writable_of_appendContent (h : fs.appendContent path added = .ok fs') :
    ∃ names mode content, Writable fs' path names mode content := by
  rw [appendContent, changeContent, bind_eq_ok] at h
  obtain ⟨place, hplace, h⟩ := h
  cases place with
  | found names inode =>
    cases inode with
    | file mode content =>
      dsimp only at h
      split at h
      · next mayWrite =>
        cases h
        have grown := grown_rewritten (at?_of_resolve hplace) added
        exact ⟨names, mode, _, grown.writable ⟨hplace, mayWrite⟩⟩
      · cases h
    | directory mode entries => cases h
    | symlink target => cases h
    | special mode => cases h
  | missing directory name asDirectory =>
    have absent := absent_of_resolve hplace
    dsimp only at h
    split at h
    · cases h
    · next noDirectory =>
      change (if fs.mayChange directory = true then
        Except.ok (withFile fs directory name ([] ++ added))
        else .error SystemError.permissionDenied) = .ok fs' at h
      split at h
      · next mayChange =>
        obtain ⟨mode, entries, hdirectory⟩ := exists_directory_of_mayChange mayChange
        obtain ⟨keeps, hfile⟩ := keeps_withFile hdirectory absent ([] ++ added)
        cases h
        have filled : Filled (withFile fs directory name ([] ++ added))
            (.missing directory name asDirectory) :=
          ⟨by simpa using noDirectory, fileMode, _, hfile⟩
        obtain ⟨inode, hresolve, hinode⟩ := keeps.resolve hplace filled
        obtain rfl := Option.some.inj (hfile.symm.trans hinode)
        exact ⟨_, _, _, hresolve, mayWrite_fileMode _⟩
      · cases h

end Opening

end HashedTree.AppendedFiles
