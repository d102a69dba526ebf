import LogMotif.Column

/-! # Filtering rows

A filter keeps the rows that contain a text, in one column or anywhere in the row with its cells
separated by blanks.
-/

namespace LogMotif

/-- Where a filter looks for its text. -/
inductive FilterColumn where
  | all
  | index (column : Nat)
deriving DecidableEq, Repr

namespace FilterColumn

/-- The name that stands for all columns. -/
def allName : String := "All"

/-- The first column of the given name. Names that no column has stand for all columns. -/
def ofName (headers : List Header) (name : String) : FilterColumn :=
  if name = allName then all
  else ((headers.findIdx? (·.name == name)).map index).getD all

end FilterColumn

namespace Filter

/-- Whether a text occurs in another. -/
def occursIn (needle : List Char) : List Char → Bool
  | [] => needle.isEmpty
  | c :: rest => needle.isPrefixOf (c :: rest) || occursIn needle rest

/-- Whether a row is kept by a filter. The empty text is found in every row. -/
def keeps (column : FilterColumn) (needle : String) (row : List String) : Bool :=
  if needle.isEmpty then true
  else
    match column with
    | .all => occursIn needle.toList (String.intercalate " " row).toList
    | .index i => (row[i]?).any fun cell => occursIn needle.toList cell.toList

/-- The numbers of the rows a filter keeps, in ascending order. -/
def keptRows (rows : List (List String)) (column : FilterColumn) (needle : String) : List Nat :=
  (rows.zipIdx.filter fun (row, _) => keeps column needle row).map (·.2)

end Filter

end LogMotif
