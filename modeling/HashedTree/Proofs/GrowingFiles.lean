import HashedTree.Proofs.BuildSteps

/-!
# Files that grow while a tree is built

A walk depends on what is appended to a file only if it reads that file. The files that it reads
beneath a directory are told by their paths, so it is enough that none of these grows.
-/
namespace HashedTree.GrowingFiles
open ByteBlocks PathText TreeBuilding BuildSteps

mutual
/-- The paths of the files that a walk reads. -/
def filesBeneath (path : Bytes) : Inode → List Bytes
  | .file _ _ => [path]
  | .directory _ entries => filesAmong path entries
  | .symlink _ | .special _ => []

def filesAmong (directory : Bytes) : List (Bytes × Inode) → List Bytes
  | [] => []
  | (name, inode) :: rest => filesBeneath (join directory name) inode ++ filesAmong directory rest
end

/-- None of these files grows. -/
def Idle (growth : Growth) (files : List Bytes) : Prop :=
  ∀ file ∈ files, ∀ noted, growth noted file = []

theorem idle_append {growth : Growth} {files others : List Bytes} :
    Idle growth (files ++ others) ↔ Idle growth files ∧ Idle growth others :=
  List.forall_mem_append

variable {now : Incidents} {growth : Growth} {fs : FileSystem} {hasher : ContentHasher}

mutual
theorem visit_of_idle {noted : List BuildEvent} {path : Bytes} {name : Option Bytes} {inode : Inode}
    (idle : Idle growth (filesBeneath path inode)) :
    visit now growth fs hasher noted path name inode =
      visit now .none fs hasher noted path name inode := by
  cases inode with
  | file mode content =>
    have unchanged : growth noted path = [] := idle path List.mem_cons_self noted
    simp only [visit, unchanged, Growth.none]
  | directory mode entries =>
    rw [filesBeneath] at idle
    rw [visit, visitEntries_of_idle idle, visit]
  | symlink target => simp only [visit]
  | special mode => simp only [visit]

theorem visitEntries_of_idle {noted : List BuildEvent} {directory : Bytes} {mode given : Nat}
    {entries : List (Bytes × Inode)} (idle : Idle growth (filesAmong directory entries)) :
    visitEntries now growth fs hasher noted directory mode given entries =
      visitEntries now .none fs hasher noted directory mode given entries := by
  cases entries with
  | nil => simp only [visitEntries]
  | cons entry rest =>
    obtain ⟨name, inode⟩ := entry
    rw [filesAmong, idle_append] at idle
    simp only [visitEntries]
    rw [visit_of_idle idle.1, visitEntries_of_idle idle.2]
end

theorem bind_congr_of_result {α β : Type} {w : Walk α} {f g : α → Walk β}
    (h : ∀ a, w.result = .ok a → f a = g a) : w >>= f = w >>= g := by
  obtain ⟨events, result⟩ := w
  cases result with
  | error e => rfl
  | ok a =>
    show Walk.mk (events ++ (f a).events) (f a).result =
      Walk.mk (events ++ (g a).events) (g a).result
    rw [h a rfl]

theorem lookup_of_rootDirectory {path : Bytes} {directory : Inode}
    (h : (rootDirectory now fs path).result = .ok directory) :
    fs.lookup true path = .ok directory := by
  rw [rootDirectory] at h
  cases found : rootLookup now fs path with
  | error cause =>
    rw [found] at h
    cases h
  | ok inode =>
    rw [found] at h
    by_cases isDirectory : inode.isDirectory
    · simp only [isDirectory, if_true, Walk.result_pure, Except.ok.injEq] at h
      rw [lookup_of_rootLookup found, h]
    · simp only [isDirectory] at h
      cases h

/-- A build that reads no growing file is the build while no file grows. -/
theorem buildAmid_of_idle {path : Bytes}
    (idle : ∀ directory, fs.lookup true path = .ok directory →
      Idle growth (filesBeneath path directory)) :
    buildAmid now growth fs hasher path = buildAmid now .none fs hasher path := by
  refine bind_congr_of_result fun _ _ => bind_congr_of_result fun directory found => ?_
  rw [visit_of_idle (idle directory (lookup_of_rootDirectory found))]

end HashedTree.GrowingFiles
