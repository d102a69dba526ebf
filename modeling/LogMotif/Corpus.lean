import LogMotif.Column
import LogMotif.Error
import LogMotif.Json.Quote
import LogMotif.Text.Lines

/-! # The searchable text of a log

Every row of a log is written as one JSON object on a line of its own, keyed by the column names in
their order. Columns of coloring rules are left out. An index records at which byte each row starts,
so that a line can be taken out of the text directly.
-/

namespace LogMotif

/-- The number of bytes that characters take in UTF-8. -/
def byteLength (text : List Char) : Nat := text.foldr (fun c length => c.utf8Size + length) 0

/-- The bytes at which the rows of a text start, and the length of the text. -/
structure RowIndex where
  starts : Array Nat
  size : Nat
deriving DecidableEq, Repr

namespace RowIndex

/-- The starts of pieces of text that follow each other from the byte `offset` on. -/
def startsFrom (offset : Nat) : List (List Char) → List Nat
  | [] => []
  | line :: lines => offset :: startsFrom (offset + byteLength line) lines

/-- The index of a text of lines. -/
def ofText (text : String) : RowIndex where
  starts := (startsFrom 0 (Text.splitLines text.toList)).toArray
  size := text.utf8ByteSize

/-- The number of rows. -/
def rowCount (index : RowIndex) : Nat := index.starts.size

/-- The byte at which a row starts. -/
def start? (index : RowIndex) (row : Nat) : Option Nat := index.starts[row]?

/-- The byte behind a row, which is the start of the next. -/
def stop (index : RowIndex) (row : Nat) : Nat := (index.starts[row + 1]?).getD index.size

end RowIndex

/-- The searchable text of a log with the index of its rows. -/
structure Corpus where
  text : String
  index : RowIndex := .ofText text
  index_eq : index = .ofText text := by rfl

namespace Corpus

/-- The corpus whose text has been written already. -/
def ofText (text : String) : Corpus := { text }

/-- The members of the object that a row is written as. -/
def writeMembers (headers : List Header) (roles : List ColumnRole) (row : List String) :
    List String :=
  (headers.zip (roles.zip row)).filterMap fun (header, role, cell) =>
    if role.inCorpus then some (Json.quote header.name ++ ":" ++ Json.quote cell) else none

/-- The line that a row is written as. -/
def writeRow (headers : List Header) (roles : List ColumnRole) (row : List String) : String :=
  "\x7b" ++ String.intercalate "," (writeMembers headers roles row) ++ "\x7d\n"

/-- Refuse rows that do not have one cell per column, naming the first. -/
def checkRows (width : Nat) (rows : List (List String)) : Except MotifError Unit :=
  match rows.zipIdx.find? fun (row, _) => row.length != width with
  | none => .ok ()
  | some (row, i) => .error (.mismatchedRow i width row.length)

/-- Write the rows of a log. -/
def ofRows (headers : List Header) (roles : List ColumnRole) (rows : List (List String)) :
    Except MotifError Corpus := do
  if headers.length ≠ roles.length then throw (.mismatchedRoles headers.length roles.length)
  checkRows headers.length rows
  return ofText (String.join (rows.map (writeRow headers roles)))

/-- The number of rows. -/
def rowCount (corpus : Corpus) : Nat := corpus.index.rowCount

/-- The text of a row with its line feed. -/
def rowText? (corpus : Corpus) (row : Nat) : Option String := do
  let start ← corpus.index.start? row
  String.fromUTF8? (corpus.text.toUTF8.extract start (corpus.index.stop row))

/-- The line of a row, without its line feed. -/
def line? (corpus : Corpus) (row : Nat) : Option String :=
  (corpus.rowText? row).map fun text => String.ofList (Text.dropLineFeed text.toList)

end Corpus

end LogMotif
