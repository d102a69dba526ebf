import LogMotif.Link

/-! # Errors of the matching core

Empty or misplaced text selections, an emptied motif and a search without results are not errors.
What is left is input that does not fit together, and wildcards on which the cells and the list of
wildcards disagree.

Two failures have no error here. One is that a row cannot be written as JSON: cells are texts, and
each text has a JSON string. The other is that a regular expression engine refuses a pattern. The
patterns of a query are well formed, and an engine is assumed to accept every well-formed pattern.
Its limit on the size that a pattern compiles to is left out.
-/

namespace LogMotif

/-- The segment that holds one occurrence of a wildcard. -/
structure Occurrence where
  entry : Nat
  cell : Nat
  segment : Nat
deriving DecidableEq, Repr

/-- What an index was meant to name. -/
inductive Place where
  | entry
  | cell
  | link
  | wildcard
  | selectedRow
deriving DecidableEq, Repr

/-- The name of a place in an error message. -/
def Place.describe : Place → String
  | entry => "entry"
  | cell => "cell"
  | link => "link"
  | wildcard => "wildcard"
  | selectedRow => "selected row"

/-- Why an operation on a motif was refused. -/
inductive MotifError where
  /-- An index names nothing: there are only `length` such things. -/
  | outOfRange (place : Place) (index length : Nat)
  /-- A row does not have one cell per column. -/
  | mismatchedRow (row expected found : Nat)
  /-- The column roles do not cover the headers. -/
  | mismatchedRoles (headers roles : Nat)
  /-- A link that allows no positive distance. -/
  | invalidLink (link : Link)
  /-- A cell and the list of wildcards disagree on an occurrence. -/
  | orphanWildcard (wildcard : Nat) (occurrence : Occurrence)
  /-- A wildcard without occurrences. -/
  | emptyWildcard (wildcard : Nat)
deriving DecidableEq, Repr

/-- The message shown to the user. Wildcards are numbered from one, as they are in cells. -/
def MotifError.message : MotifError → String
  | outOfRange place index length =>
    s!"{place.describe} index {index} out of range (length {length})"
  | mismatchedRow row expected found => s!"Row {row} has {found} cells, expected {expected}"
  | mismatchedRoles headers roles => s!"Got {roles} column types for {headers} headers"
  | invalidLink link =>
    s!"Invalid link distance {link.describe}: distances count rows and start at 1"
  | orphanWildcard wildcard occurrence =>
    s!"Inconsistent wildcard ?{wildcard + 1} at entry {occurrence.entry}, "
      ++ s!"cell {occurrence.cell}, segment {occurrence.segment}"
  | emptyWildcard wildcard => s!"Wildcard ?{wildcard + 1} has no occurrences left"

end LogMotif
