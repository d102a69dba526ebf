/-! # Files

What the program asks of a file system, the ways in which that can fail, and what it builds from
that: reading text, and creating a directory with all those above it. Paths are texts; the names on
them are separated by slashes.
-/

namespace LogMotif

/-- Why a file operation failed. -/
inductive FileError where
  | notFound
  | exists
  | notDirectory
  | isDirectory
  | nameTooLong
  | notText
  | other (message : String)
deriving DecidableEq, Repr

/-- The message of a file error. -/
def FileError.message : FileError → String
  | notFound => "No such file or directory (os error 2)"
  | «exists» => "File exists (os error 17)"
  | notDirectory => "Not a directory (os error 20)"
  | isDirectory => "Is a directory (os error 21)"
  | nameTooLong => "File name too long (os error 36)"
  | notText => "stream did not contain valid UTF-8"
  | other message => message

namespace Path

/-- Whether a path starts at the root. -/
def isAbsolute (path : String) : Bool := path.startsWith "/"

/-- All that stands between the slashes of a path. -/
def components (path : String) : List String := (path.splitOn "/").filter (!·.isEmpty)

/-- A path without the slashes and the names of one dot at its end. The path is given from its
end, and a dot with which it starts stays. -/
def trimEnd : List Char → List Char
  | '/' :: path => trimEnd path
  | '.' :: '/' :: path => trimEnd path
  | path => path

/-- A path without its last name, given from its end. -/
def dropLast (path : List Char) : List Char := trimEnd ((trimEnd path).dropWhile (· != '/'))

/-- The directory above the end of a path, as the path itself spells it. It is empty for a path of
one name and for the root. -/
def parent (path : String) : String := String.ofList (dropLast path.toList.reverse).reverse

private theorem length_trimEnd_le (path : List Char) : (trimEnd path).length ≤ path.length := by
  fun_induction trimEnd path <;> grind

private theorem head?_trimEnd (path : List Char) : (trimEnd path).head? ≠ some '/' := by
  fun_induction trimEnd path with
  | case1 => assumption
  | case2 => assumption
  | case3 path notSlash _ =>
    cases path with
    | nil => simp
    | cons char rest =>
      intro same
      exact notSlash rest (by simpa using same)

private theorem length_dropLast_lt {path : List Char} (nonempty : path ≠ []) :
    (dropLast path).length < path.length := by
  have start := length_trimEnd_le path
  have finish := length_trimEnd_le ((trimEnd path).dropWhile (· != '/'))
  have noSlash := head?_trimEnd path
  unfold dropLast
  cases trimmed : trimEnd path with
  | nil => simpa [trimEnd, List.length_pos_iff] using nonempty
  | cons char rest =>
    have shorter := (List.dropWhile_suffix (l := rest) (· != '/')).length_le
    simp_all
    omega

theorem length_parent_lt {path : String} (nonempty : path ≠ "") :
    (parent path).length < path.length := by
  have reversed : path.toList.reverse ≠ [] := by simpa using nonempty
  have shorter := length_dropLast_lt reversed
  simpa [parent, ← String.length_toList] using shorter

end Path

/-- The operations on files that the program uses. -/
structure Files (m : Type → Type) where
  read : String → m (Except FileError ByteArray)
  write : String → String → m (Except FileError Unit)
  createDirectory : String → m (Except FileError Unit)
  isDirectory : String → m Bool

namespace Files

variable {m : Type → Type} [Monad m]

/-- The text of a file that must be UTF-8. -/
def readText (files : Files m) (path : String) : m (Except FileError String) := do
  match ← files.read path with
  | .error error => return .error error
  | .ok bytes => return (String.fromUTF8? bytes).elim (.error .notText) .ok

/-- Create a directory unless there is one. -/
def ensureDirectory (files : Files m) (path : String) : m (Except FileError Unit) := do
  match ← files.createDirectory path with
  | .error .exists => return if ← files.isDirectory path then .ok () else .error .exists
  | result => return result

/-- Create a directory with all those above it, unless there is one. Those above are only created
where one is missing. -/
def ensureDirectories (files : Files m) (path : String) : m (Except FileError Unit) := do
  if _ : path = "" then return .ok () else
  match ← files.ensureDirectory path with
  | .error .notFound =>
    match ← files.ensureDirectories (Path.parent path) with
    | .ok () => files.ensureDirectory path
    | result => return result
  | result => return result
termination_by path.length
decreasing_by exact Path.length_parent_lt ‹_›

end Files

end LogMotif
