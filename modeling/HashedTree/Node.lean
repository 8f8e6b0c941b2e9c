import HashedTree.DigestCombinators

/-! # Trees of files, directories and symbolic links, each with its digest

The constructors take any digest and any order of entries, as a decoded document may claim them;
`Node.ofEntries` and `Node.ofTarget` make the nodes whose digests and order are right.
-/
namespace HashedTree
open Utf8Text DigestCombinators

/-- A file has the digest and the length of its content, a directory its entries, and a symbolic
link the text it points to. -/
inductive Node where
  | file (name : String) (hash : Digest) (size : UInt64)
  | directory (name : String) (hash : Digest) (entries : List Node)
  | link (name : String) (hash : Digest) (target : String)

namespace Node

mutual
private def decideEq : (a b : Node) → Decidable (a = b)
  | .file n h s, .file n' h' s' =>
    if e : n = n' ∧ h = h' ∧ s = s' then isTrue (by rw [e.1, e.2.1, e.2.2])
    else isFalse (by intro q; injection q with q r t; exact e ⟨q, r, t⟩)
  | .directory n h es, .directory n' h' es' =>
    if e : n = n' ∧ h = h' then
      match decideEqEntries es es' with
      | isTrue t => isTrue (by rw [e.1, e.2, t])
      | isFalse t => isFalse (by intro q; injection q with _ _ q; exact t q)
    else isFalse (by intro q; injection q with q r; exact e ⟨q, r⟩)
  | .link n h t, .link n' h' t' =>
    if e : n = n' ∧ h = h' ∧ t = t' then isTrue (by rw [e.1, e.2.1, e.2.2])
    else isFalse (by intro q; injection q with q r t; exact e ⟨q, r, t⟩)
  | .file .., .directory .. | .file .., .link .. | .directory .., .file ..
  | .directory .., .link .. | .link .., .file .. | .link .., .directory .. =>
    isFalse (by intro q; injection q)

private def decideEqEntries : (a b : List Node) → Decidable (a = b)
  | [], [] => isTrue rfl
  | [], _ :: _ => isFalse (by intro q; injection q)
  | _ :: _, [] => isFalse (by intro q; injection q)
  | a :: as, b :: bs =>
    match decideEq a b with
    | isFalse h => isFalse (by intro q; injection q with q; exact h q)
    | isTrue h =>
      match decideEqEntries as bs with
      | isTrue t => isTrue (by rw [h, t])
      | isFalse t => isFalse (by intro q; injection q with _ q; exact t q)
end

instance : DecidableEq Node := decideEq

instance : Inhabited Node := ⟨.directory "" .zero []⟩

def name : Node → String
  | .file name _ _ | .directory name _ _ | .link name _ _ => name

def hash : Node → Digest
  | .file _ hash _ | .directory _ hash _ | .link _ hash _ => hash

/-- The entries of a directory; nothing else has any. -/
def entries : Node → List Node
  | .directory _ _ entries => entries
  | .file .. | .link .. => []

def size? : Node → Option UInt64
  | .file _ _ size => some size
  | .directory .. | .link .. => none

def target? : Node → Option String
  | .link _ _ target => some target
  | .file .. | .directory .. => none

/-- The same node under another name. A name is no part of the node's own digest. -/
def rename (name : String) : Node → Node
  | .file _ hash size => .file name hash size
  | .directory _ hash entries => .directory name hash entries
  | .link _ hash target => .link name hash target

@[simp] theorem hash_rename (node : Node) (name : String) :
    (node.rename name).hash = node.hash := by
  cases node <;> rfl

@[simp] theorem entries_rename (node : Node) (name : String) :
    (node.rename name).entries = node.entries := by
  cases node <;> rfl

@[simp] theorem rename_rename (node : Node) (name other : String) :
    (node.rename name).rename other = node.rename other := by
  cases node <;> rfl

@[simp] theorem rename_name (node : Node) : node.rename node.name = node := by
  cases node <;> rfl

def nameLe (a b : Node) : Bool := decide (utf8 a.name ≤ utf8 b.name)

def insertByName (node : Node) : List Node → List Node
  | [] => [node]
  | other :: rest =>
    if nameLe node other then node :: other :: rest else other :: insertByName node rest

/-- The nodes in the order of their names; nodes of one name keep their order. -/
def sortByName (nodes : List Node) : List Node := nodes.foldr insertByName []

/-- The directory with the given entries. They are kept in the order of their names, and the
digest is that of their digests in this order. -/
def ofEntries (name : String) (entries : List Node) : Node :=
  let sorted := sortByName entries
  .directory name (directoryHash (sorted.map hash)) sorted

def ofTarget (name target : String) : Node := .link name (linkHash target) target

mutual
/-- The node rebuilt from its files: claimed orders and digests of directories and digests of
links are dropped. -/
def rebuild : Node → Node
  | .file name hash size => .file name hash size
  | .directory name _ entries => ofEntries name (rebuildAll entries)
  | .link name _ target => ofTarget name target

def rebuildAll : List Node → List Node
  | [] => []
  | node :: rest => rebuild node :: rebuildAll rest
end

mutual
def preorder : Node → List Node
  | .file name hash size => [.file name hash size]
  | .directory name hash entries => .directory name hash entries :: preorderAll entries
  | .link name hash target => [.link name hash target]

def preorderAll : List Node → List Node
  | [] => []
  | node :: rest => preorder node ++ preorderAll rest
end

theorem mem_preorderAll {node : Node} {nodes : List Node} :
    node ∈ preorderAll nodes ↔ ∃ entry ∈ nodes, node ∈ entry.preorder := by
  induction nodes with
  | nil => simp [preorderAll]
  | cons first rest ih => simp [preorderAll, ih]

theorem self_mem_preorder (node : Node) : node ∈ node.preorder := by
  cases node <;> simp [preorder]

theorem preorder_subset {node entry : Node} (h : entry ∈ node.entries) :
    entry.preorder ⊆ node.preorder := by
  cases node with
  | file name hash size => cases h
  | directory name hash entries =>
    exact fun inner hinner => List.mem_cons_of_mem _ (mem_preorderAll.mpr ⟨entry, h, hinner⟩)
  | link name hash target => cases h

end Node

/-- The three kinds of nodes. -/
inductive NodeKind where
  | file
  | directory
  | link
  deriving DecidableEq, Repr

def NodeKind.word : NodeKind → String
  | .file => "file"
  | .directory => "directory"
  | .link => "symbolic"

def Node.kind : Node → NodeKind
  | .file .. => .file
  | .directory .. => .directory
  | .link .. => .link

end HashedTree
