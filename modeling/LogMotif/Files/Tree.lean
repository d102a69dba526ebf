import LogMotif.Files

/-! # A tree of files in memory

A tree of files and directories answers like a file system. A path is followed name by name, and
every name but the last must lead to a directory; the name of one dot stays there, and that of two
dots goes up. A slash behind the last name asks for a directory. Names and paths have a greatest
length, in bytes.
-/

namespace LogMotif

namespace FileTree

/-- What bears a name in a tree: a file, or a directory and what has a name in it. -/
inductive Node where
  | file (content : String)
  | directory (entries : List (String × Node))
deriving Repr

/-- What is in a directory, by name. -/
abbrev Entries := List (String × Node)

/-- The greatest length of a name. -/
def greatestName : Nat := 255

/-- The greatest length of a path. -/
def greatestPath : Nat := 4095

/-- The names that lead from a directory to itself and to the one above. -/
def dots : List String := [".", ".."]

namespace Entries

/-- Give a name in a directory to a node, in place of what had it. -/
def set (entries : Entries) (name : String) (node : Node) : Entries :=
  (name, node) :: entries.filter (·.1 != name)

/-- What is in the directory of a name, and nothing if the name has none. -/
def below (entries : Entries) (name : String) : Entries :=
  match entries.lookup name with
  | some (.directory entries) => entries
  | _ => []

/-- Put a node where some names lead from a directory. What is on the way and no directory is
replaced by one. -/
def put (entries : Entries) (node : Node) : List String → Entries
  | [] => entries
  | [last] => entries.set last node
  | first :: rest => entries.set first (.directory ((entries.below first).put node rest))

end Entries

/-- A directory in a tree, and the way to it from the root. -/
structure Position where
  entries : Entries
  /-- The names on the way, each with the directory in which it stands, the last name first. -/
  way : List (String × Entries) := []

namespace Position

/-- The names on the way to a directory. -/
def names (position : Position) : List String := (position.way.map (·.1)).reverse

/-- The directory above. The root is above itself. -/
def up (position : Position) : Position :=
  match position.way with
  | [] => position
  | (_, entries) :: way => { entries, way }

/-- What has a name in a directory, if anything. -/
def find? (position : Position) (name : String) : Except FileError (Option Node) :=
  if greatestName < name.utf8ByteSize then .error .nameTooLong
  else .ok (position.entries.lookup name)

/-- The directory to which a name leads. -/
def enter (position : Position) (name : String) : Except FileError Position := do
  if name = "." then return position
  if name = ".." then return position.up
  match ← position.find? name with
  | some (.directory entries) => return { entries, way := (name, position.entries) :: position.way }
  | some (.file _) => throw .notDirectory
  | none => throw .notFound

end Position

end FileTree

/-- A tree of files, and the directory from which relative paths start. -/
structure FileTree where
  entries : FileTree.Entries := []
  current : List String := []
deriving Repr

namespace FileTree

/-- Put a file where some names lead from the root. -/
def put (tree : FileTree) (names : List String) (content : String) : FileTree :=
  { tree with entries := tree.entries.put (.file content) names }

/-- Put an empty directory where some names lead from the root. -/
def putDirectory (tree : FileTree) (names : List String) : FileTree :=
  { tree with entries := tree.entries.put (.directory []) names }

/-- Follow all names on a path but the last, and give back that one too. A path of slashes stays at
the root. -/
def approach (tree : FileTree) (path : String) : Except FileError (Position × String) := do
  if path.isEmpty then throw .notFound
  if greatestPath < path.utf8ByteSize then throw .nameTooLong
  let components := Path.components path
  let start := if Path.isAbsolute path then [] else tree.current
  let above ← (start ++ components.dropLast).foldlM Position.enter { entries := tree.entries }
  return (above, components.getLast?.getD ".")

/-- The content of the file at a path. -/
def read (tree : FileTree) (path : String) : Except FileError String := do
  let (above, last) ← tree.approach path
  if last ∈ dots then throw .isDirectory
  match ← above.find? last with
  | some (.file content) => if path.endsWith "/" then throw .notDirectory else return content
  | some (.directory _) => throw .isDirectory
  | none => throw .notFound

/-- The tree with a file written to a path. -/
def write (tree : FileTree) (path content : String) : Except FileError FileTree := do
  let (above, last) ← tree.approach path
  if last ∈ dots || path.endsWith "/" then throw .isDirectory
  match ← above.find? last with
  | some (.directory _) => throw .isDirectory
  | _ => return tree.put (above.names ++ [last]) content

/-- The tree with a new directory at a path. -/
def createDirectory (tree : FileTree) (path : String) : Except FileError FileTree := do
  let (above, last) ← tree.approach path
  if last ∈ dots then throw .exists
  match ← above.find? last with
  | some _ => throw .exists
  | none => return tree.putDirectory (above.names ++ [last])

/-- Whether a path leads to a directory. -/
def leadsToDirectory (tree : FileTree) (path : String) : Bool :=
  match tree.approach path with
  | .ok (above, last) => (above.enter last).isOk
  | .error _ => false

/-- Change a tree that is threaded through, if it can be done. -/
def change (next : FileTree → Except FileError FileTree) :
    StateM FileTree (Except FileError Unit) := do
  match next (← get) with
  | .ok tree => set tree; return .ok ()
  | .error error => return .error error

/-- The file operations on a tree that is threaded through. -/
def operations : Files (StateM FileTree) where
  read path := do return ((← get).read path).map String.toUTF8
  write path content := change (·.write path content)
  createDirectory path := change (·.createDirectory path)
  isDirectory path := do return (← get).leadsToDirectory path

end FileTree

end LogMotif
