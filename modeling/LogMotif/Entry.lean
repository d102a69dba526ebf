import LogMotif.Cell
import LogMotif.Column
import LogMotif.Link

/-! # Entries of a motif

An entry is a selected log row lifted into the motif: its cells, split into segments as wildcards
are put over their text, which of them take part in matching, and the link to the next entry. The
last entry of a motif has no link.
-/

namespace LogMotif

/-- One row of a motif. -/
structure Entry where
  /-- The log row as it was selected, by which a row already present is recognised. -/
  source : List String
  cells : List Cell
  /-- For each cell, whether it takes part in matching. -/
  selection : List Bool
  /-- The link to the next entry. -/
  link : Option Link
deriving DecidableEq, Repr

namespace Entry

/-- Lift a log row, selecting the cells of content columns. -/
def ofRow (roles : List ColumnRole) (row : List String) : Entry where
  source := row
  cells := row.map Cell.ofText
  selection := (List.range row.length).map fun column =>
    (roles[column]?).any ColumnRole.selectedByDefault
  link := some .any

/-- The cell of an entry, replaced by what a function makes of it. -/
def modifyCell (entry : Entry) (cell : Nat) (change : Cell → Cell) : Entry :=
  { entry with cells := entry.cells.modify cell change }

/-- Change the link of the last entry of a list. -/
def modifyLastLink (change : Option Link → Option Link) (entries : List Entry) : List Entry :=
  entries.modify (entries.length - 1) fun entry => { entry with link := change entry.link }

/-- Remove the link of the last entry, which has no successor. -/
def unlinkLast (entries : List Entry) : List Entry := modifyLastLink (fun _ => none) entries

/-- Lift log rows into entries, in the order given. -/
def ofRows (roles : List ColumnRole) (rows : List (List String)) : List Entry :=
  unlinkLast (rows.map (ofRow roles))

/-- Add an entry behind the others, linked to the one before it, unless its source row is already
present. -/
def appendNew (entries : List Entry) (entry : Entry) : List Entry :=
  if entries.any (·.source == entry.source) then entries
  else modifyLastLink (fun link => some (link.getD .any)) entries ++ [entry]

/-- Add entries behind the others, skipping those whose source row is already present. -/
def appendAll (entries incoming : List Entry) : List Entry :=
  unlinkLast (incoming.foldl appendNew entries)

/-- The selection flags after cell `cell` was switched, where only the columns for which
`selectable` holds may be selected. An exclusive switch selects that cell alone, or every cell if it
already was the only one. -/
def toggleSelection (selectable : Nat → Bool) (cell : Nat) (exclusive : Bool)
    (selection : List Bool) : List Bool :=
  if exclusive then
    let alone := selection.zipIdx.all fun (selected, column) =>
      selected == (column == cell) || !selectable column
    selection.zipIdx.map fun (_, column) => selectable column && (alone || column == cell)
  else selection.modify cell not

end Entry

end LogMotif
