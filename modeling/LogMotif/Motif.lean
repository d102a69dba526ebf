import LogMotif.Entry
import LogMotif.Wildcard

/-! # Motifs and their edits

A motif is a list of entries together with the wildcards that occur in their cells. An edit gives
back the edited motif, or the reason it was refused. An edit that finds nothing to change, such as
putting a wildcard over an empty range, gives back none. Entries and wildcards are repaired
together, so what `Motif.inconsistency?` looks for does not arise from an edit of a motif in which
each occurrence is listed once.
-/

namespace LogMotif

/-- Entries and the wildcards that occur in them. -/
structure Motif where
  entries : List Entry
  wildcards : List Wildcard
deriving DecidableEq, Repr

/-- A range of characters in one segment of a cell of a motif. -/
structure Selection where
  entry : Nat
  cell : Nat
  range : SegmentRange
deriving DecidableEq, Repr

namespace Motif

/-- The cell with the given place, or the error that says which index names nothing. -/
def getCell (motif : Motif) (entry cell : Nat) : Except MotifError Cell :=
  match motif.entries[entry]? with
  | none => .error (.outOfRange .entry entry motif.entries.length)
  | some found =>
    match found.cells[cell]? with
    | none => .error (.outOfRange .cell cell found.cells.length)
    | some content => .ok content

/-- A motif with one cell replaced. -/
def setCell (motif : Motif) (entry cell : Nat) (content : Cell) : Motif :=
  { motif with entries := motif.entries.modify entry (·.modifyCell cell fun _ => content) }

/-- A motif with one entry replaced. -/
def modifyEntry (motif : Motif) (entry : Nat) (change : Entry → Entry) : Motif :=
  { motif with entries := motif.entries.modify entry change }

/-- The motif made of the given log rows, without wildcards. -/
def ofRows (roles : List ColumnRole) (rows : List (List String)) : Motif :=
  ⟨Entry.ofRows roles rows, []⟩

/-- Add the log rows that are not present yet. -/
def appendRows (motif : Motif) (roles : List ColumnRole) (rows : List (List String)) : Motif :=
  { motif with entries := Entry.appendAll motif.entries (Entry.ofRows roles rows) }

/-! ### Renumbering -/

/-- The segment with its wildcard renumbered after the wildcards in `deleted` disappeared. -/
def renumberSegment (deleted : List Nat) : Segment → Segment
  | .text content => .text content
  | .wildcard index content =>
    .wildcard (index - (deleted.filter (· < index)).length) content

/-- Renumber the wildcards in the cells after the wildcards in `deleted` disappeared. -/
def renumber (entries : List Entry) (deleted : List Nat) : List Entry :=
  entries.map fun entry =>
    { entry with
      cells := entry.cells.map fun cell => ⟨cell.segments.map (renumberSegment deleted)⟩ }

/-! ### Entries -/

/-- What is left after an entry was removed. -/
inductive Removal where
  | remaining (motif : Motif)
  /-- The removed entry was the only one. -/
  | emptied
deriving DecidableEq, Repr

/-- Remove an entry together with the wildcard occurrences in it. -/
def removeEntry (motif : Motif) (entry : Nat) : Except MotifError Removal :=
  if entry < motif.entries.length then
    let clearance := clearEntry motif.wildcards entry
    let entries := motif.entries.eraseIdx entry
    if entries.isEmpty then .ok .emptied
    else .ok (.remaining
      ⟨Entry.unlinkLast (renumber entries clearance.deleted), clearance.wildcards⟩)
  else .error (.outOfRange .entry entry motif.entries.length)

/-- Switch whether a cell takes part in matching. Cells of rule columns stay out. -/
def toggleCell (motif : Motif) (roles : List ColumnRole) (entry cell : Nat) (exclusive : Bool) :
    Except MotifError Motif := do
  let _ ← motif.getCell entry cell
  let selectable (column : Nat) : Bool := (roles[column]?).any ColumnRole.inCorpus
  if selectable cell then
    return motif.modifyEntry entry fun found =>
      { found with selection := Entry.toggleSelection selectable cell exclusive found.selection }
  else return motif

/-- Refuse an entry that has no successor, and so no link. -/
def checkLink (motif : Motif) (entry : Nat) : Except MotifError Unit :=
  let links := motif.entries.length - 1
  if entry < links then .ok () else .error (.outOfRange .link entry links)

/-- Switch the link of an entry to its next state. -/
def toggleLink (motif : Motif) (entry gap : Nat) : Except MotifError Motif := do
  motif.checkLink entry
  return motif.modifyEntry entry fun found =>
    { found with link := some ((found.link.getD .any).cycled gap) }

/-- Set the link of an entry. -/
def setLink (motif : Motif) (entry : Nat) (link : Link) : Except MotifError Motif := do
  motif.checkLink entry
  if link.isValid then
    return motif.modifyEntry entry fun found => { found with link := some link }
  else throw (.invalidLink link)

/-! ### Wildcards -/

/-- The selection that a range of the shown text of a cell stands for; none when the range is empty
or crosses the boundary of a segment. -/
def select (motif : Motif) (entry cell start stop : Nat) :
    Except MotifError (Option Selection) := do
  let content ← motif.getCell entry cell
  return (content.locate? start stop).map fun range => ⟨entry, cell, range⟩

/-- Put wildcard number `index` over a selection, with `record` entering the new occurrence into
the list of wildcards once the occurrences behind it have moved. -/
def insertWildcard (motif : Motif) (index : Nat) (selection : Selection)
    (record : List Wildcard → Occurrence → Except MotifError (List Wildcard)) :
    Except MotifError (Option Motif) := do
  let cell ← motif.getCell selection.entry selection.cell
  match cell.insert? index selection.range with
  | none => return none
  | some insertion =>
    let moved := shiftOccurrences motif.wildcards selection.entry selection.cell
      selection.range.segment insertion.added
    let wildcards ← record moved ⟨selection.entry, selection.cell, insertion.segment⟩
    return some
      { motif.setCell selection.entry selection.cell insertion.cell with wildcards := wildcards }

/-- Create a wildcard over a selection. -/
def createWildcard (motif : Motif) (selection : Selection) : Except MotifError (Option Motif) :=
  motif.insertWildcard motif.wildcards.length selection fun wildcards occurrence =>
    .ok (wildcards ++ [.single occurrence])

/-- Put an existing wildcard over a selection. -/
def useWildcard (motif : Motif) (index : Nat) (selection : Selection) :
    Except MotifError (Option Motif) :=
  if index < motif.wildcards.length then
    motif.insertWildcard index selection fun wildcards occurrence =>
      addOccurrence wildcards index occurrence
  else .error (.outOfRange .wildcard index motif.wildcards.length)

/-- Turn the wildcard in a segment back into text, and delete it if it occurs nowhere else. -/
def removeWildcard (motif : Motif) (entry cell segment : Nat) :
    Except MotifError (Option Motif) := do
  let content ← motif.getCell entry cell
  match (content.segments[segment]?).bind Segment.wildcard?, content.remove? segment with
  | some index, some removal =>
    let update ← removeOccurrence motif.wildcards index ⟨entry, cell, segment⟩
    let edited := motif.setCell entry cell removal.cell
    return some
      { entries := if update.deleted then renumber edited.entries [index] else edited.entries
        wildcards := shiftOccurrences update.wildcards entry cell segment
          (-(removal.removed : Int)) }
  | _, _ => return none

/-! ### Consistency -/

/-- The wildcard in a segment, if the segment exists and holds one. -/
def wildcardAt? (entries : List Entry) (occurrence : Occurrence) : Option Nat := do
  let entry ← entries[occurrence.entry]?
  let cell ← entry.cells[occurrence.cell]?
  let segment ← cell.segments[occurrence.segment]?
  segment.wildcard?

/-- Whether the list of wildcards knows an occurrence of a wildcard. -/
def isListed (wildcards : List Wildcard) (index : Nat) (occurrence : Occurrence) : Bool :=
  (wildcards[index]?).any fun wildcard => decide (occurrence ∈ wildcard.occurrences)

/-- The first disagreement found in the cells: an entry without one selection flag per cell, or a
wildcard that is not listed. -/
def entryInconsistency? (motif : Motif) : Option MotifError :=
  motif.entries.zipIdx.findSome? fun (entry, i) =>
    if entry.selection.length ≠ entry.cells.length then
      some (.mismatchedRow i entry.cells.length entry.selection.length)
    else
      entry.cells.zipIdx.findSome? fun (cell, j) =>
        cell.segments.zipIdx.findSome? fun (segment, k) =>
          match segment.wildcard? with
          | none => none
          | some index =>
            if isListed motif.wildcards index ⟨i, j, k⟩ then none
            else some (.orphanWildcard index ⟨i, j, k⟩)

/-- The first disagreement found in the list of wildcards: one without occurrences, or an occurrence
at a segment that does not hold it. -/
def wildcardInconsistency? (motif : Motif) : Option MotifError :=
  motif.wildcards.zipIdx.findSome? fun (wildcard, index) =>
    if wildcard.occurrences.isEmpty then some (.emptyWildcard index)
    else
      wildcard.occurrences.findSome? fun occurrence =>
        if wildcardAt? motif.entries occurrence = some index then none
        else some (.orphanWildcard index occurrence)

/-- The first disagreement between the cells and the list of wildcards. -/
def inconsistency? (motif : Motif) : Option MotifError :=
  motif.entryInconsistency? <|> motif.wildcardInconsistency?

/-- Accept a motif whose cells and wildcards agree. -/
def checkConsistency (motif : Motif) : Except MotifError Unit :=
  match motif.inconsistency? with
  | none => .ok ()
  | some error => .error error

end Motif

end LogMotif
