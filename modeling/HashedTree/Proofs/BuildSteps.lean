import HashedTree.TreeBuilding
import HashedTree.Proofs.Outcomes
import Mathlib.Data.List.Forall2

/-!
# What each step of a build returns

One equation for each kind of thing that a build comes across, without what it notes on the way:
first amid any incidents, then without them. No file grows meanwhile, so what was noted before does
not matter.
-/
namespace HashedTree.BuildSteps
open ByteBlocks PathText Utf8Text TreeBuilding Outcomes

variable {now : Incidents} {fs : FileSystem} {hasher : ContentHasher} {path name : Bytes}
  {mode given : Nat} {inode : Inode} {content target : Bytes} {entries : List (Bytes × Inode)}

section Noted

mutual
theorem visit_noted (noted : List BuildEvent) (path : Bytes) (name : Option Bytes) (inode : Inode) :
    visit now .none fs hasher noted path name inode =
      visit now .none fs hasher [] path name inode := by
  cases inode with
  | file mode content => simp only [visit, Growth.none]
  | directory mode entries =>
    rw [visit, visitEntries_noted noted path mode 0 entries, visit]
  | symlink target => simp only [visit]
  | special mode => simp only [visit]

theorem visitEntries_noted (noted : List BuildEvent) (path : Bytes) (mode given : Nat)
    (entries : List (Bytes × Inode)) :
    visitEntries now .none fs hasher noted path mode given entries =
      visitEntries now .none fs hasher [] path mode given entries := by
  cases entries with
  | nil => simp only [visitEntries]
  | cons entry rest =>
    obtain ⟨name, inode⟩ := entry
    simp only [visitEntries]
    rw [visit_noted noted (join path name) (some name) inode]
    rw [visitEntries_noted (noted ++ _) path mode (given + 1) rest,
      visitEntries_noted ([] ++ _) path mode (given + 1) rest]
end

end Noted

section Visits

theorem result_visit_file (name : Option Bytes) :
    (visit now .none fs hasher [] path name (.file mode content)).result =
      ((hasher path (contentRead now fs path (.file mode content))).mapError (.contentHash path)).bind
        fun digest => (nameText path name).map fun text =>
          .file text digest (UInt64.ofNat content.length) := by
  simp only [visit, Growth.none, List.append_nil, Walk.result_bind, Walk.result_ofExcept,
    Walk.result_note, Walk.result_pure, ok_bind]
  rfl

theorem result_visit_directory (name : Option Bytes) :
    (visit now .none fs hasher [] path name (.directory mode entries)).result =
      ((opened now fs path mode).mapError (.readDirectory path)).bind fun _ =>
        (visitEntries now .none fs hasher [] path mode 0 entries).result.bind fun nodes =>
          (nameText path name).map fun text => .ofEntries text nodes := by
  simp only [visit, Walk.result_bind, Walk.result_ofExcept, Walk.result_note, Walk.result_pure,
    ok_bind]
  rfl

theorem result_visit_symlink (name : Option Bytes) :
    (visit now .none fs hasher [] path name (.symlink target)).result =
      ((unlessIncident (now.readingLink path)).mapError (.readLink path)).bind fun _ =>
        (targetText path target).bind fun target =>
          (nameText path name).map fun text => .ofTarget text target := by
  simp only [visit, Walk.result_bind, Walk.result_ofExcept, Walk.result_note, Walk.result_pure,
    ok_bind]
  rfl

theorem result_visitEntries_nil :
    (visitEntries now .none fs hasher [] path mode given []).result =
      ((unlessIncident (now.listing path given)).mapError (.readDirectory path)).map fun _ => [] := by
  simp only [visitEntries, Walk.result_bind, Walk.result_ofExcept, Walk.result_pure]
  rfl

theorem result_visitEntries_cons :
    (visitEntries now .none fs hasher [] path mode given ((name, inode) :: entries)).result =
      ((unlessIncident (now.listing path given)).mapError (.readDirectory path)).bind fun _ =>
        ((examined now fs (join path name) mode).mapError (.stat (join path name))).bind fun _ =>
          (visit now .none fs hasher [] (join path name) (some name) inode).result.bind fun node =>
            (visitEntries now .none fs hasher [] path mode (given + 1) entries).result.map
              (node :: ·) := by
  simp only [visitEntries, visitEntries_noted, Walk.result_bind, Walk.result_ofExcept,
    Walk.result_pure]
  rfl

end Visits

section Quiet

@[simp] theorem opened_none : opened .none fs path mode = listable fs path mode := by
  rw [opened]
  cases listable fs path mode <;> rfl

@[simp] theorem examined_none : examined .none fs path mode = examinable fs path mode := by
  rw [examined]
  cases examinable fs path mode <;> rfl

@[simp] theorem contentRead_none : contentRead .none fs path inode = fs.readInode inode := by
  rw [contentRead]
  cases fs.readInode inode <;> rfl

@[simp] theorem rootLookup_none : rootLookup .none fs path = fs.lookup true path := by
  rw [rootLookup]
  cases fs.lookup true path <;> rfl

theorem visitEntries_given (given : Nat) :
    visitEntries .none .none fs hasher [] path mode given entries =
      walkEntries fs hasher path mode entries := by
  rw [walkEntries]
  induction entries generalizing given with
  | nil => simp only [visitEntries, Incidents.none]
  | cons entry rest ih =>
    obtain ⟨name, inode⟩ := entry
    simp only [visitEntries, visitEntries_noted, Incidents.none]
    rw [← Incidents.none, ih (given + 1), ih (0 + 1)]

end Quiet

theorem result_walkNode_file (name : Option Bytes) :
    (walkNode fs hasher path name (.file mode content)).result =
      ((hasher path (fs.readInode (.file mode content))).mapError (.contentHash path)).bind
        fun digest => (nameText path name).map fun text =>
          .file text digest (UInt64.ofNat content.length) := by
  rw [walkNode, result_visit_file, contentRead_none]

theorem result_walkNode_directory (name : Option Bytes) :
    (walkNode fs hasher path name (.directory mode entries)).result =
      ((listable fs path mode).mapError (.readDirectory path)).bind fun _ =>
        (walkEntries fs hasher path mode entries).result.bind fun nodes =>
          (nameText path name).map fun text => .ofEntries text nodes := by
  rw [walkNode, result_visit_directory, opened_none, walkEntries]

theorem result_walkNode_symlink (name : Option Bytes) :
    (walkNode fs hasher path name (.symlink target)).result =
      (targetText path target).bind fun target =>
        (nameText path name).map fun text => .ofTarget text target := by
  rw [walkNode, result_visit_symlink]
  rfl

theorem result_walkEntries_cons :
    (walkEntries fs hasher path mode ((name, inode) :: entries)).result =
      ((examinable fs (join path name) mode).mapError (.stat (join path name))).bind fun _ =>
        (walkNode fs hasher (join path name) (some name) inode).result.bind fun node =>
          (walkEntries fs hasher path mode entries).result.map (node :: ·) := by
  rw [walkEntries, result_visitEntries_cons, examined_none, visitEntries_given]
  rfl

section Success
variable {name : Option Bytes} {node : Node}

theorem targetText_eq_ok {text : String} :
    targetText path target = .ok text ↔ ofUtf8? target = some text := by
  rw [targetText]
  cases ofUtf8? target <;> simp

theorem visit_file_eq_ok :
    (visit now .none fs hasher [] path name (.file mode content)).result = .ok node ↔
      ∃ text digest, nameText path name = .ok text ∧
        hasher path (contentRead now fs path (.file mode content)) = .ok digest ∧
        .file text digest (UInt64.ofNat content.length) = node := by
  simp only [result_visit_file, bind_eq_ok, mapError_eq_ok, map_eq_ok]
  constructor
  · rintro ⟨digest, hdigest, text, htext, hnode⟩
    exact ⟨text, digest, htext, hdigest, hnode⟩
  · rintro ⟨text, digest, htext, hdigest, hnode⟩
    exact ⟨digest, hdigest, text, htext, hnode⟩

theorem visit_directory_eq_ok :
    (visit now .none fs hasher [] path name (.directory mode entries)).result = .ok node ↔
      ∃ text nodes, nameText path name = .ok text ∧ opened now fs path mode = .ok () ∧
        (visitEntries now .none fs hasher [] path mode 0 entries).result = .ok nodes ∧
        .ofEntries text nodes = node := by
  simp only [result_visit_directory, bind_eq_ok, mapError_eq_ok, map_eq_ok]
  constructor
  · rintro ⟨⟨⟩, hopened, nodes, hnodes, text, htext, hnode⟩
    exact ⟨text, nodes, htext, hopened, hnodes, hnode⟩
  · rintro ⟨text, nodes, htext, hopened, hnodes, hnode⟩
    exact ⟨(), hopened, nodes, hnodes, text, htext, hnode⟩

theorem visit_symlink_eq_ok :
    (visit now .none fs hasher [] path name (.symlink target)).result = .ok node ↔
      ∃ text link, nameText path name = .ok text ∧ now.readingLink path = none ∧
        ofUtf8? target = some link ∧ .ofTarget text link = node := by
  simp only [result_visit_symlink, bind_eq_ok, mapError_eq_ok, map_eq_ok, targetText_eq_ok,
    unlessIncident_eq_ok]
  constructor
  · rintro ⟨⟨⟩, hread, link, hlink, text, htext, hnode⟩
    exact ⟨text, link, htext, hread, hlink, hnode⟩
  · rintro ⟨text, link, htext, hread, hlink, hnode⟩
    exact ⟨(), hread, link, hlink, text, htext, hnode⟩

theorem walkNode_file_eq_ok :
    (walkNode fs hasher path name (.file mode content)).result = .ok node ↔
      ∃ text digest, nameText path name = .ok text ∧
        hasher path (fs.readInode (.file mode content)) = .ok digest ∧
        .file text digest (UInt64.ofNat content.length) = node := by
  rw [walkNode, visit_file_eq_ok, contentRead_none]

theorem walkNode_directory_eq_ok :
    (walkNode fs hasher path name (.directory mode entries)).result = .ok node ↔
      ∃ text nodes, nameText path name = .ok text ∧ listable fs path mode = .ok () ∧
        (walkEntries fs hasher path mode entries).result = .ok nodes ∧
        .ofEntries text nodes = node := by
  rw [walkNode, visit_directory_eq_ok, opened_none]
  rfl

theorem walkNode_symlink_eq_ok :
    (walkNode fs hasher path name (.symlink target)).result = .ok node ↔
      ∃ text link, nameText path name = .ok text ∧ ofUtf8? target = some link ∧
        .ofTarget text link = node := by
  rw [walkNode, visit_symlink_eq_ok]
  simp only [Incidents.none, true_and]

end Success

theorem exists_right_of_mem {α β : Type} {R : α → β → Prop} {as : List α} {bs : List β}
    (h : List.Forall₂ R as bs) {a : α} (ha : a ∈ as) : ∃ b ∈ bs, R a b := by
  induction h with
  | nil => cases ha
  | cons hab _ ih =>
    rcases List.mem_cons.mp ha with rfl | ha
    · exact ⟨_, List.mem_cons_self, hab⟩
    · obtain ⟨b, hb, hrel⟩ := ih ha
      exact ⟨b, List.mem_cons_of_mem _ hb, hrel⟩

/-- A listing is walked without failure exactly if it does not break off and this can be said of
each of its entries. -/
theorem visitEntries_eq_ok {nodes : List Node} :
    (visitEntries now .none fs hasher [] path mode given entries).result = .ok nodes ↔
      (∀ k ≤ entries.length, now.listing path (given + k) = none) ∧
      List.Forall₂ (fun entry node => examined now fs (join path entry.1) mode = .ok () ∧
        (visit now .none fs hasher [] (join path entry.1) (some entry.1) entry.2).result = .ok node)
        entries nodes := by
  induction entries generalizing nodes given with
  | nil =>
    simp only [result_visitEntries_nil, map_eq_ok, mapError_eq_ok, unlessIncident_eq_ok,
      exists_const, List.length_nil, Nat.le_zero, forall_eq, Nat.add_zero, List.forall₂_nil_left_iff]
    exact and_congr_right fun _ => eq_comm
  | cons entry entries ih =>
    obtain ⟨name, inode⟩ := entry
    have unbroken_cons : (∀ k ≤ entries.length + 1, now.listing path (given + k) = none) ↔
        now.listing path given = none ∧
          ∀ k ≤ entries.length, now.listing path (given + 1 + k) = none := by
      constructor
      · intro h
        refine ⟨h 0 (Nat.zero_le _), fun k hk => ?_⟩
        rw [Nat.add_assoc, Nat.add_comm 1 k]
        exact h (k + 1) (Nat.succ_le_succ hk)
      · rintro ⟨first, others⟩ k hk
        cases k with
        | zero => exact first
        | succ k =>
          rw [Nat.add_comm k 1, ← Nat.add_assoc]
          exact others k (Nat.le_of_succ_le_succ hk)
    simp only [result_visitEntries_cons, bind_eq_ok, mapError_eq_ok, map_eq_ok,
      unlessIncident_eq_ok, List.forall₂_cons_left_iff, ih, List.length_cons, unbroken_cons]
    constructor
    · rintro ⟨⟨⟩, first, ⟨⟩, hexamined, node, hnode, others, ⟨unbroken, hothers⟩, rfl⟩
      exact ⟨⟨first, unbroken⟩, node, others, ⟨hexamined, hnode⟩, hothers, rfl⟩
    · rintro ⟨⟨first, unbroken⟩, node, others, ⟨hexamined, hnode⟩, hothers, rfl⟩
      exact ⟨(), first, (), hexamined, node, hnode, others, ⟨unbroken, hothers⟩, rfl⟩

theorem walkEntries_eq_ok {nodes : List Node} :
    (walkEntries fs hasher path mode entries).result = .ok nodes ↔
      List.Forall₂ (fun entry node => examinable fs (join path entry.1) mode = .ok () ∧
        (walkNode fs hasher (join path entry.1) (some entry.1) entry.2).result = .ok node)
        entries nodes := by
  simp only [walkEntries, visitEntries_eq_ok, examined_none, walkNode]
  exact and_iff_right fun k _ => rfl

theorem lookup_of_rootLookup (h : rootLookup now fs path = .ok inode) :
    fs.lookup true path = .ok inode := by
  obtain ⟨found, hfound, hquiet⟩ := bind_eq_ok.mp h
  obtain ⟨-, -, rfl⟩ := map_eq_ok.mp hquiet
  exact hfound

theorem result_buildAmid :
    (buildAmid now .none fs hasher path).result =
      match rootLookup now fs path with
      | .error cause => .error (.stat path cause)
      | .ok inode =>
        if inode.isDirectory then
          (visit now .none fs hasher [] path (fileName? path) inode).result.map (·.rename rootName)
        else .error (.notADirectory path) := by
  simp only [buildAmid, visit_noted, Walk.result_bind, Walk.result_note, Walk.result_pure,
    result_notingFailure, ok_bind, rootDirectory]
  cases rootLookup now fs path with
  | error cause => rfl
  | ok inode => by_cases h : inode.isDirectory <;> simp only [h] <;> rfl

theorem buildAmid_eq_ok {tree : Node} :
    (buildAmid now .none fs hasher path).result = .ok tree ↔
      ∃ directory node, rootLookup now fs path = .ok directory ∧ directory.isDirectory ∧
        (visit now .none fs hasher [] path (fileName? path) directory).result = .ok node ∧
        node.rename rootName = tree := by
  rw [result_buildAmid]
  cases rootLookup now fs path with
  | error cause => simp
  | ok inode => by_cases h : inode.isDirectory <;> simp [h, map_eq_ok]

theorem buildTree_eq :
    buildTree fs hasher path =
      match fs.lookup true path with
      | .error cause => .error (.stat path cause)
      | .ok inode =>
        if inode.isDirectory then
          (walkNode fs hasher path (fileName? path) inode).result.map (·.rename rootName)
        else .error (.notADirectory path) := by
  rw [buildTree, build, result_buildAmid, rootLookup_none]
  rfl

theorem buildTree_eq_ok {tree : Node} :
    buildTree fs hasher path = .ok tree ↔
      ∃ directory node, fs.lookup true path = .ok directory ∧ directory.isDirectory ∧
        (walkNode fs hasher path (fileName? path) directory).result = .ok node ∧
        node.rename rootName = tree := by
  rw [buildTree, build, buildAmid_eq_ok, rootLookup_none]
  rfl

theorem nameText_eq_error {name : Option Bytes} {e : BuildError} :
    nameText path name = .error e ↔
      ∃ bytes, name = some bytes ∧ ofUtf8? bytes = none ∧ e = .invalidName path := by
  cases name with
  | none => simp [nameText]
  | some bytes => cases h : ofUtf8? bytes <;> simp [nameText, h, eq_comm]

theorem nameText_some_eq_ok {text : String} :
    nameText path (some name) = .ok text ↔ ofUtf8? name = some text := by
  rw [nameText]
  cases ofUtf8? name <;> simp

theorem utf8_of_nameText {text : String} (h : nameText path (some name) = .ok text) :
    utf8 text = name :=
  utf8_of_ofUtf8? (nameText_some_eq_ok.mp h)

theorem nameText_of_visit {name : Option Bytes} {node : Node}
    (h : (visit now .none fs hasher [] path name inode).result = .ok node) :
    nameText path name = .ok node.name := by
  cases inode with
  | file mode content =>
    obtain ⟨text, digest, htext, -, rfl⟩ := visit_file_eq_ok.mp h
    exact htext
  | directory mode entries =>
    obtain ⟨text, nodes, htext, -, -, rfl⟩ := visit_directory_eq_ok.mp h
    exact htext
  | symlink target =>
    obtain ⟨text, link, htext, -, -, rfl⟩ := visit_symlink_eq_ok.mp h
    exact htext
  | special mode => cases h

theorem nameText_of_walkNode {name : Option Bytes} {node : Node}
    (h : (walkNode fs hasher path name inode).result = .ok node) :
    nameText path name = .ok node.name := nameText_of_visit h

/-- A hasher that fails if the content of a file cannot be read. -/
def Strict (hasher : ContentHasher) : Prop :=
  ∀ path cause, ∃ e, hasher path (.error cause) = .error e

theorem strict_chunked : Strict .chunked := fun _ cause => ⟨cause, rfl⟩

mutual
/-- Incidents may keep a node from being made, but do not change it. -/
theorem walkNode_of_visit (strict : Strict hasher) {path : Bytes} {name : Option Bytes}
    {inode : Inode} {node : Node}
    (h : (visit now .none fs hasher [] path name inode).result = .ok node) :
    (walkNode fs hasher path name inode).result = .ok node := by
  cases inode with
  | file mode content =>
    obtain ⟨text, digest, htext, hdigest, hnode⟩ := visit_file_eq_ok.mp h
    refine walkNode_file_eq_ok.mpr ⟨text, digest, htext, ?_, hnode⟩
    cases hread : contentRead now fs path (.file mode content) with
    | error cause =>
      obtain ⟨e, hfails⟩ := strict path cause
      rw [hread, hfails] at hdigest
      cases hdigest
    | ok bytes =>
      rw [hread] at hdigest
      obtain ⟨found, hfound, hquiet⟩ := bind_eq_ok.mp hread
      obtain ⟨-, -, rfl⟩ := map_eq_ok.mp hquiet
      rw [hfound, hdigest]
  | directory mode entries =>
    obtain ⟨text, nodes, htext, hopened, hnodes, hnode⟩ := visit_directory_eq_ok.mp h
    obtain ⟨⟨⟩, hlistable, -⟩ := bind_eq_ok.mp hopened
    exact walkNode_directory_eq_ok.mpr
      ⟨text, nodes, htext, hlistable, walkEntries_of_visitEntries strict hnodes, hnode⟩
  | symlink target =>
    obtain ⟨text, link, htext, -, hlink, hnode⟩ := visit_symlink_eq_ok.mp h
    exact walkNode_symlink_eq_ok.mpr ⟨text, link, htext, hlink, hnode⟩
  | special mode => cases h

theorem walkEntries_of_visitEntries (strict : Strict hasher) {path : Bytes} {mode given : Nat}
    {entries : List (Bytes × Inode)} {nodes : List Node}
    (h : (visitEntries now .none fs hasher [] path mode given entries).result = .ok nodes) :
    (walkEntries fs hasher path mode entries).result = .ok nodes := by
  cases entries with
  | nil =>
    simp only [result_visitEntries_nil, map_eq_ok] at h
    obtain ⟨-, -, rfl⟩ := h
    exact walkEntries_eq_ok.mpr .nil
  | cons entry rest =>
    obtain ⟨name, inode⟩ := entry
    simp only [result_visitEntries_cons, bind_eq_ok, mapError_eq_ok, map_eq_ok] at h
    obtain ⟨⟨⟩, -, ⟨⟩, hexamined, node, hnode, others, hothers, rfl⟩ := h
    obtain ⟨⟨⟩, hexaminable, -⟩ := bind_eq_ok.mp hexamined
    simp only [result_walkEntries_cons, bind_eq_ok, mapError_eq_ok, map_eq_ok]
    exact ⟨(), hexaminable, node, walkNode_of_visit strict hnode, others,
      walkEntries_of_visitEntries strict hothers, rfl⟩
end

theorem buildTree_of_buildAmid (strict : Strict hasher) {tree : Node}
    (h : (buildAmid now .none fs hasher path).result = .ok tree) :
    buildTree fs hasher path = .ok tree := by
  obtain ⟨directory, node, hlookup, isDirectory, hnode, htree⟩ := buildAmid_eq_ok.mp h
  exact buildTree_eq_ok.mpr ⟨directory, node, lookup_of_rootLookup hlookup, isDirectory,
    walkNode_of_visit strict hnode, htree⟩

end HashedTree.BuildSteps
