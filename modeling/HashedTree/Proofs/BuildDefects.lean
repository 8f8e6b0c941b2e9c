import HashedTree.Proofs.BuildSteps
import HashedTree.Proofs.PathResolution

/-!
# A build fails exactly at something defective

What a build comes across is said in terms of paths and of what the system answers about them: the
root, and whatever the listing of a directory that was come across gives, under its own path. It may
be defective in one of nine ways. Whatever the incidents, a build fails if and only if it comes across
something defective, and the error that it returns names such a thing by its path and one of its
defects.
-/
namespace HashedTree.BuildDefects
open ByteBlocks PathText Utf8Text TreeBuilding Outcomes BuildSteps PathResolution

/-- The path of what the names of entries lead to from a root. -/
def pathTo (root : Bytes) (names : List Bytes) : Bytes := names.foldl join root

/-- What the system says about it. A link is followed at the root only. -/
def status (now : Incidents) (fs : FileSystem) (root : Bytes) (names : List Bytes) :
    Except SystemError Inode :=
  (fs.lookup names.isEmpty (pathTo root names)).bind fun inode =>
    (unlessIncident (now.examining (pathTo root names))).map fun _ => inode

/-- The names in the directory at a path, in the order in which they would be given. -/
def listing (now : Incidents) (fs : FileSystem) (path : Bytes) : Except SystemError (List Bytes) :=
  (fs.lookup true path).bind fun inode =>
    match inode with
    | .directory mode entries =>
      if fs.mayRead mode then
        (unlessIncident (now.opening path)).map fun _ => entries.map Prod.fst
      else .error .permissionDenied
    | .file .. | .symlink _ | .special _ => .error .notADirectory

/-- What reading the file at a path gives. -/
def content (now : Incidents) (fs : FileSystem) (path : Bytes) : Except SystemError Bytes :=
  (fs.contentAt path).bind fun content =>
    (unlessIncident (now.readingFile path)).map fun _ => content

/-- Come across on the way from the root through directories alone, and before a listing breaks
off. -/
inductive Reached (now : Incidents) (fs : FileSystem) (root : Bytes) : List Bytes → Prop where
  | root : Reached now fs root []
  | entry {names listed : List Bytes} {name : Bytes} {inode : Inode} {k : Nat}
      (reached : Reached now fs root names) (status : status now fs root names = .ok inode)
      (isDirectory : inode.isDirectory) (listing : listing now fs (pathTo root names) = .ok listed)
      (isListed : listed[k]? = some name)
      (unbroken : ∀ j ≤ k, now.listing (pathTo root names) j = none) :
      Reached now fs root (names ++ [name])

/-- What is wrong with something beneath a root, as the error that names it. -/
inductive Defect (now : Incidents) (fs : FileSystem) (hasher : ContentHasher) (root : Bytes)
    (names : List Bytes) : BuildError → Prop where
  | stat {cause : SystemError} (status : status now fs root names = .error cause) :
      Defect now fs hasher root names (.stat (pathTo root names) cause)
  | notADirectory {inode : Inode} (isRoot : names = [])
      (status : status now fs root names = .ok inode) (notDirectory : inode.isDirectory = false) :
      Defect now fs hasher root names (.notADirectory (pathTo root names))
  | readDirectory {inode : Inode} {cause : SystemError}
      (status : status now fs root names = .ok inode) (isDirectory : inode.isDirectory)
      (listing : listing now fs (pathTo root names) = .error cause) :
      Defect now fs hasher root names (.readDirectory (pathTo root names) cause)
  | brokenListing {inode : Inode} {listed : List Bytes} {k : Nat} {cause : SystemError}
      (status : status now fs root names = .ok inode) (isDirectory : inode.isDirectory)
      (listing : listing now fs (pathTo root names) = .ok listed) (withinListing : k ≤ listed.length)
      (unbroken : ∀ j < k, now.listing (pathTo root names) j = none)
      (breaksOff : now.listing (pathTo root names) k = some cause) :
      Defect now fs hasher root names (.readDirectory (pathTo root names) cause)
  | readLink {target : Bytes} {cause : SystemError} (notRoot : names ≠ [])
      (status : status now fs root names = .ok (.symlink target))
      (unreadable : now.readingLink (pathTo root names) = some cause) :
      Defect now fs hasher root names (.readLink (pathTo root names) cause)
  | unsupportedKind {mode : Nat} (notRoot : names ≠ [])
      (status : status now fs root names = .ok (.special mode)) :
      Defect now fs hasher root names (.unsupportedKind (pathTo root names))
  | contentHash {mode : Nat} {bytes : Bytes} {cause : SystemError} (notRoot : names ≠ [])
      (status : status now fs root names = .ok (.file mode bytes))
      (hash : hasher (pathTo root names) (content now fs (pathTo root names)) = .error cause) :
      Defect now fs hasher root names (.contentHash (pathTo root names) cause)
  | invalidTarget {target : Bytes} (notRoot : names ≠ [])
      (status : status now fs root names = .ok (.symlink target))
      (noText : ofUtf8? target = none) :
      Defect now fs hasher root names (.invalidName (pathTo root names))
  | invalidName {name : Bytes} (named : fileName? (pathTo root names) = some name)
      (noText : ofUtf8? name = none) :
      Defect now fs hasher root names (.invalidName (pathTo root names))

theorem pathTo_concat (root : Bytes) (names : List Bytes) (name : Bytes) :
    pathTo root (names ++ [name]) = join (pathTo root names) name := by
  rw [pathTo, List.foldl_append, pathTo]
  rfl

variable {now : Incidents} {fs : FileSystem} {hasher : ContentHasher} {root name : Bytes}
  {names : List Bytes} {mode : Nat} {entries : List (Bytes × Inode)} {inode : Inode}
  {e : BuildError}

/-- The system and the walk mean the same by the path of something beneath a root. -/
structure Stands (fs : FileSystem) (root : Bytes) (names : List Bytes) (inode : Inode) : Prop where
  found : fs.lookup names.isEmpty (pathTo root names) = .ok inode
  resolved : (∀ target, inode ≠ .symlink target) →
    ∃ position, fs.resolve true (pathTo root names) = .ok (.found position inode)
  wellNamed : WellNamed inode
  isDirectory_of_nil : names = [] → inode.isDirectory

theorem Stands.lookup_eq (h : Stands fs root names inode)
    (noLink : ∀ target, inode ≠ .symlink target) :
    fs.lookup true (pathTo root names) = .ok inode := lookup_eq_ok.mpr (h.resolved noLink)

theorem Stands.notRoot (h : Stands fs root names inode) (notDirectory : inode.isDirectory = false) :
    names ≠ [] := by
  intro hnil
  rw [h.isDirectory_of_nil hnil] at notDirectory
  cases notDirectory

theorem Stands.reachable (h : Stands fs root names inode)
    (noLink : ∀ target, inode ≠ .symlink target) : reachable (pathTo root names) = .ok () := by
  obtain ⟨position, hresolve⟩ := h.resolved noLink
  exact if_neg (Nat.not_le.mpr (length_lt_of_resolve hresolve))

/-- The walk opens a directory if the system lists the names of its entries. -/
theorem Stands.listing_eq (h : Stands fs root names (.directory mode entries)) :
    listing now fs (pathTo root names) =
      (opened now fs (pathTo root names) mode).map fun _ => entries.map Prod.fst := by
  rw [listing, h.lookup_eq (by simp), ok_bind, opened, listable, h.reachable (by simp), ok_bind]
  by_cases readable : fs.mayRead mode
  · simp only [readable]
    rfl
  · simp only [readable]
    rfl

theorem Stands.lookup_entry (h : Stands fs root names (.directory mode entries))
    (hmem : (name, inode) ∈ entries) :
    fs.lookup (names ++ [name]).isEmpty (pathTo root (names ++ [name])) =
      (examinable fs (join (pathTo root names) name) mode).map fun _ => inode := by
  obtain ⟨position, hresolve⟩ := h.resolved (by simp)
  cases h.wellNamed with
  | directory mode entries distinct proper beneath =>
    have hlookup := resolve_join false hresolve (proper _ hmem) (child?_of_mem distinct hmem)
      (.inl rfl)
    have hnil : (names ++ [name]).isEmpty = false := by simp
    rw [hnil, pathTo_concat, FileSystem.lookup, hlookup, examinable, TreeBuilding.reachable]
    split
    · rfl
    · split <;> rfl

/-- The walk examines an entry if the system says what it is. -/
theorem Stands.status_entry (h : Stands fs root names (.directory mode entries))
    (hmem : (name, inode) ∈ entries) :
    status now fs root (names ++ [name]) =
      (examined now fs (join (pathTo root names) name) mode).map fun _ => inode := by
  rw [status, h.lookup_entry hmem, pathTo_concat, examined]
  cases examinable fs (join (pathTo root names) name) mode <;> rfl

theorem Stands.entry (h : Stands fs root names (.directory mode entries))
    (hmem : (name, inode) ∈ entries)
    (hexaminable : examinable fs (join (pathTo root names) name) mode = .ok ()) :
    Stands fs root (names ++ [name]) inode where
  found := by
    rw [h.lookup_entry hmem, hexaminable, ok_map]
  resolved noLink := by
    obtain ⟨position, hresolve⟩ := h.resolved (by simp)
    cases h.wellNamed with
    | directory mode entries distinct proper beneath =>
      have hnext := resolve_join true hresolve (proper _ hmem) (child?_of_mem distinct hmem)
        (.inr noLink)
      rw [examinable, TreeBuilding.reachable] at hexaminable
      split at hexaminable
      · cases hexaminable
      · next hshort =>
        rw [ok_bind] at hexaminable
        split at hexaminable
        · next hsearch =>
          rw [if_neg hshort, if_pos hsearch] at hnext
          exact ⟨position ++ [name], by rw [pathTo_concat, hnext]⟩
        · cases hexaminable
  wellNamed := h.wellNamed.of_mem_entries _ hmem
  isDirectory_of_nil hnil := absurd hnil (by simp)

theorem stands_at_root (named : WellNamed fs.root) (hlookup : fs.lookup true root = .ok inode)
    (isDirectory : inode.isDirectory) : Stands fs root [] inode where
  found := hlookup
  resolved _ := lookup_eq_ok.mp hlookup
  wellNamed := by
    obtain ⟨position, hresolve⟩ := lookup_eq_ok.mp hlookup
    exact of_at? (fun _ h => h.of_mem_entries) named (at?_of_resolve hresolve)
  isDirectory_of_nil _ := isDirectory

theorem Stands.fileName?_entry (h : Stands fs root names (.directory mode entries))
    (hmem : (name, inode) ∈ entries) : fileName? (pathTo root (names ++ [name])) = some name := by
  cases h.wellNamed with
  | directory mode entries distinct proper beneath =>
    rw [pathTo_concat, fileName?_join _ (proper _ hmem)]

/-- Something stands beneath a root, and the walk comes across it and is told what it is. -/
structure Met (now : Incidents) (fs : FileSystem) (root : Bytes) (names : List Bytes)
    (inode : Inode) : Prop extends Stands fs root names inode where
  reached : Reached now fs root names
  status_eq : status now fs root names = .ok inode

theorem Met.reached_entry {k : Nat} (h : Met now fs root names (.directory mode entries))
    (hentry : entries[k]? = some (name, inode))
    (hopened : opened now fs (pathTo root names) mode = .ok ())
    (unbroken : ∀ j ≤ k, now.listing (pathTo root names) j = none) :
    Reached now fs root (names ++ [name]) := by
  have hlisting : listing now fs (pathTo root names) = _ := h.listing_eq
  rw [hopened, ok_map] at hlisting
  refine .entry h.reached h.status_eq rfl hlisting ?_ unbroken
  rw [List.getElem?_map, hentry]
  rfl

theorem Met.entry {k : Nat} (h : Met now fs root names (.directory mode entries))
    (hentry : entries[k]? = some (name, inode))
    (hopened : opened now fs (pathTo root names) mode = .ok ())
    (unbroken : ∀ j ≤ k, now.listing (pathTo root names) j = none)
    (hexamined : examined now fs (join (pathTo root names) name) mode = .ok ()) :
    Met now fs root (names ++ [name]) inode where
  toStands := by
    obtain ⟨⟨⟩, hexaminable, -⟩ := bind_eq_ok.mp hexamined
    exact h.toStands.entry (List.mem_of_getElem? hentry) hexaminable
  reached := h.reached_entry hentry hopened unbroken
  status_eq := by
    rw [h.status_entry (List.mem_of_getElem? hentry), hexamined, ok_map]

/-- What the walk makes of something that stands beneath the root. -/
def visited (now : Incidents) (fs : FileSystem) (hasher : ContentHasher) (root : Bytes)
    (names : List Bytes) (inode : Inode) : Except BuildError Node :=
  (visit now .none fs hasher [] (pathTo root names) (fileName? (pathTo root names)) inode).result

theorem Stands.visited_entry (h : Stands fs root names (.directory mode entries))
    (hmem : (name, inode) ∈ entries) :
    (visit now .none fs hasher [] (join (pathTo root names) name) (some name) inode).result =
      visited now fs hasher root (names ++ [name]) inode := by
  rw [visited, h.fileName?_entry hmem, pathTo_concat]

theorem Stands.contentRead_eq {bytes : Bytes} (h : Stands fs root names (.file mode bytes)) :
    contentRead now fs (pathTo root names) (.file mode bytes) = content now fs (pathTo root names) := by
  rw [content, FileSystem.contentAt, h.lookup_eq (by simp), ok_bind, contentRead]

theorem targetText_eq_error {path target : Bytes} :
    targetText path target = .error e ↔ ofUtf8? target = none ∧ e = .invalidName path := by
  rw [targetText]
  cases ofUtf8? target <;> simp [eq_comm]

theorem defect_of_nameText
    (h : nameText (pathTo root names) (fileName? (pathTo root names)) = .error e) :
    Defect now fs hasher root names e := by
  obtain ⟨name, hname, noText, rfl⟩ := nameText_eq_error.mp h
  exact .invalidName hname noText

mutual
/-- A walk that fails has come across what its error names. -/
theorem defect_of_visited {names : List Bytes} {inode : Inode} (h : Met now fs root names inode)
    (hfails : visited now fs hasher root names inode = .error e) :
    ∃ names, Reached now fs root names ∧ Defect now fs hasher root names e := by
  cases inode with
  | file mode bytes =>
    simp only [visited, result_visit_file, bind_eq_error, mapError_eq_error, map_eq_error,
      h.contentRead_eq] at hfails
    refine ⟨names, h.reached, ?_⟩
    rcases hfails with ⟨cause, hhash, rfl⟩ | ⟨digest, -, hname⟩
    · exact .contentHash (h.notRoot rfl) h.status_eq hhash
    · exact defect_of_nameText hname
  | directory mode entries =>
    simp only [visited, result_visit_directory, bind_eq_error, mapError_eq_error, mapError_eq_ok,
      map_eq_error] at hfails
    rcases hfails with ⟨cause, hopened, rfl⟩ | ⟨⟨⟩, hopened, hentries | ⟨nodes, -, hname⟩⟩
    · refine ⟨names, h.reached, .readDirectory h.status_eq rfl ?_⟩
      rw [h.listing_eq, hopened, error_map]
    · exact defect_of_visitEntries h hopened [] entries rfl nofun hentries
    · exact ⟨names, h.reached, defect_of_nameText hname⟩
  | symlink target =>
    simp only [visited, result_visit_symlink, bind_eq_error, mapError_eq_error, map_eq_error,
      unlessIncident_eq_error, targetText_eq_error] at hfails
    refine ⟨names, h.reached, ?_⟩
    rcases hfails with ⟨cause, unreadable, rfl⟩ | ⟨⟨⟩, -, ⟨noText, rfl⟩ | ⟨text, -, hname⟩⟩
    · exact .readLink (h.notRoot rfl) h.status_eq unreadable
    · exact .invalidTarget (h.notRoot rfl) h.status_eq noText
    · exact defect_of_nameText hname
  | special mode =>
    obtain rfl := Except.error.inj hfails
    exact ⟨names, h.reached, .unsupportedKind (h.notRoot rfl) h.status_eq⟩

theorem defect_of_visitEntries {names : List Bytes} {mode : Nat} {entries : List (Bytes × Inode)}
    (h : Met now fs root names (.directory mode entries))
    (hopened : opened now fs (pathTo root names) mode = .ok ())
    (passed rest : List (Bytes × Inode)) (hsplit : entries = passed ++ rest)
    (unbroken : ∀ j < passed.length, now.listing (pathTo root names) j = none)
    (hfails : (visitEntries now .none fs hasher [] (pathTo root names) mode passed.length
      rest).result = .error e) :
    ∃ names, Reached now fs root names ∧ Defect now fs hasher root names e := by
  have hlisting : listing now fs (pathTo root names) = _ := h.listing_eq
  rw [hopened, ok_map] at hlisting
  have broken {cause : SystemError}
      (breaksOff : now.listing (pathTo root names) passed.length = some cause) :
      Defect now fs hasher root names (.readDirectory (pathTo root names) cause) :=
    .brokenListing h.status_eq rfl hlisting (by simp [hsplit]) unbroken breaksOff
  cases rest with
  | nil =>
    simp only [result_visitEntries_nil, map_eq_error, mapError_eq_error,
      unlessIncident_eq_error] at hfails
    obtain ⟨cause, breaksOff, rfl⟩ := hfails
    exact ⟨names, h.reached, broken breaksOff⟩
  | cons entry rest =>
    obtain ⟨name, inode⟩ := entry
    have hentry : entries[passed.length]? = some (name, inode) := by simp [hsplit]
    have hmem := List.mem_of_getElem? hentry
    simp only [result_visitEntries_cons, bind_eq_error, mapError_eq_error, mapError_eq_ok,
      map_eq_error, unlessIncident_eq_error, unlessIncident_eq_ok] at hfails
    rcases hfails with ⟨cause, breaksOff, rfl⟩ | ⟨⟨⟩, goesOn, hfails⟩
    · exact ⟨names, h.reached, broken breaksOff⟩
    · have unbroken : ∀ j ≤ passed.length, now.listing (pathTo root names) j = none := by
        intro j hj
        rcases Nat.lt_or_eq_of_le hj with hlt | rfl
        · exact unbroken j hlt
        · exact goesOn
      rcases hfails with ⟨cause, hexamined, rfl⟩ | ⟨⟨⟩, hexamined, hnode | ⟨node, -, hothers⟩⟩
      · refine ⟨names ++ [name], h.reached_entry hentry hopened unbroken, ?_⟩
        rw [← pathTo_concat]
        refine .stat ?_
        rw [h.status_entry hmem, hexamined, error_map]
      · rw [h.visited_entry hmem] at hnode
        exact defect_of_visited (h.entry hentry hopened unbroken hexamined) hnode
      · have hlength : (passed ++ [(name, inode)]).length = passed.length + 1 := by simp
        refine defect_of_visitEntries h hopened (passed ++ [(name, inode)]) rest (by simp [hsplit])
          ?_ (by rw [hlength]; exact hothers)
        intro j hj
        rw [hlength] at hj
        exact unbroken j (Nat.le_of_lt_succ hj)
end

end HashedTree.BuildDefects
