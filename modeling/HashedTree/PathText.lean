import HashedTree.ByteBlocks

/-! # Paths as byte strings -/
namespace HashedTree.PathText
open ByteBlocks

def slash : UInt8 := 47

/-- The names `.` and `..`. -/
def here : Bytes := [46]

def parent : Bytes := [46, 46]

def split : Bytes → List Bytes
  | [] => [[]]
  | b :: rest =>
    if b = slash then [] :: split rest
    else
      match split rest with
      | [] => [[b]]
      | first :: others => (b :: first) :: others

def components (path : Bytes) : List Bytes := (split path).filter (· ≠ [])

def isAbsolute (path : Bytes) : Bool := path.head? = some slash

def endsInSlash (path : Bytes) : Bool := path.getLast? = some slash && !(components path).isEmpty

/-- A path continued by a name. A slash goes between them unless one is there. -/
def join (path name : Bytes) : Bytes :=
  if isAbsolute name then name
  else if path.isEmpty ∨ path.getLast? = some slash then path ++ name
  else path ++ slash :: name

/-- The components that name something: `.` does not, except in front of a relative path, where
nothing else is meant by it either. -/
def proper (path : Bytes) : List Bytes := (components path).filter (· ≠ here)

/-- The components without each `.` that adds nothing; the one in front of a relative path is
kept, so that the path stays one. -/
def essential (path : Bytes) : List Bytes :=
  let lead := if isAbsolute path then 0 else 1
  (components path).take lead ++ ((components path).drop lead).filter (· ≠ here)

/-- The last name in a path; there is none at the root, in `.`, and behind `..`. -/
def fileName? (path : Bytes) : Option Bytes :=
  match (proper path).getLast? with
  | some name => if name = parent then none else some name
  | none => none

end HashedTree.PathText
