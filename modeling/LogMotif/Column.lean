/-! # Columns of a log

A log is a table of text cells. Each column has a header, with the kind of values the loader found
in it, and a role that says how the column takes part in matching.
-/

namespace LogMotif

/-- The kind of values a column holds. -/
inductive ValueKind where
  | string
  | number
deriving DecidableEq, Repr

/-- The name of a column and the kind of its values. -/
structure Header where
  name : String
  kind : ValueKind := .string
deriving DecidableEq, Repr

/-- How a column takes part in matching. -/
inductive ColumnRole where
  /-- A column of times: left out of a fresh entry, but it may be taken in. -/
  | timestamp
  /-- A column computed by a coloring rule: absent from the raw log, so never matched. -/
  | rule
  /-- A column of content: taken into every fresh entry. -/
  | content
deriving DecidableEq, Repr

namespace ColumnRole

/-- Whether a fresh entry takes in the cell of such a column. -/
def selectedByDefault : ColumnRole → Bool
  | content => true
  | timestamp | rule => false

/-- Whether the column is written to the searchable text of the log. -/
def inCorpus : ColumnRole → Bool
  | timestamp | content => true
  | rule => false

end ColumnRole

end LogMotif
