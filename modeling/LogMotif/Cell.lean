/-! # Cells of an entry

A cell holds the text of one log cell, split into segments. A segment is plain text, or an
occurrence of a wildcard together with the text it stands for. Putting a wildcard over a stretch of
a text segment splits that segment; taking it away joins the text with the plain text beside it.
Offsets count characters.
-/

namespace LogMotif

/-- A piece of a cell. -/
inductive Segment where
  /-- Text taken literally. -/
  | text (content : String)
  /-- An occurrence of wildcard number `index`, standing for the text `content`. -/
  | wildcard (index : Nat) (content : String)
deriving DecidableEq, Repr

namespace Segment

/-- The text shown for a segment: wildcards appear as `?1`, `?2` and so on. -/
def rendered : Segment → String
  | text content => content
  | wildcard index _ => "?" ++ toString (index + 1)

/-- The log text a segment stands for. -/
def content : Segment → String
  | text content => content
  | wildcard _ content => content

/-- The number of the wildcard in a segment, if it holds one. -/
def wildcard? : Segment → Option Nat
  | text _ => none
  | wildcard index _ => some index

end Segment

/-- The segments a log cell has been split into. -/
structure Cell where
  segments : List Segment
deriving DecidableEq, Repr

/-- A stretch of characters inside one segment. -/
structure SegmentRange where
  segment : Nat
  start : Nat
  stop : Nat
deriving DecidableEq, Repr

/-- A cell after a wildcard was put into it. -/
structure CellInsertion where
  cell : Cell
  /-- The segment that holds the new occurrence. -/
  segment : Nat
  /-- How many segments the cell has gained. -/
  added : Nat
deriving DecidableEq, Repr

/-- A cell after a wildcard was taken out of it. -/
structure CellRemoval where
  cell : Cell
  /-- How many segments the cell has lost. -/
  removed : Nat
deriving DecidableEq, Repr

namespace Cell

/-- An unsplit cell. -/
def ofText (content : String) : Cell := ⟨[.text content]⟩

/-- The text shown for a cell. -/
def rendered (cell : Cell) : String := String.join (cell.segments.map Segment.rendered)

/-- The log text a cell stands for. -/
def content (cell : Cell) : String := String.join (cell.segments.map Segment.content)

/-- The wildcard of each segment. -/
def wildcards (cell : Cell) : List (Option Nat) := cell.segments.map Segment.wildcard?

/-- Whether some segment holds a wildcard. -/
def hasWildcards (cell : Cell) : Bool := cell.segments.any (·.wildcard?.isSome)

/-- Look for the shown characters from `start` to `stop` among segments of which the first has
number `index` and begins at character `offset`. -/
def locateFrom? (start stop : Nat) : List Segment → Nat → Nat → Option SegmentRange
  | [], _, _ => none
  | segment :: rest, index, offset =>
    let next := offset + segment.rendered.length
    if offset ≤ start ∧ stop ≤ next then some ⟨index, start - offset, stop - offset⟩
    else if start < next then none
    else locateFrom? start stop rest (index + 1) next

/-- The one segment whose shown text holds the shown characters from `start` to `stop`; none when
the range is empty, out of bounds or across a boundary. -/
def locate? (cell : Cell) (start stop : Nat) : Option SegmentRange :=
  if start < stop then locateFrom? start stop cell.segments 0 0 else none

/-- The text before, inside and after the characters from `start` to `stop`, if that range is not
empty and lies within the text. -/
def splitText? (content : String) (start stop : Nat) : Option (String × String × String) :=
  if start < stop ∧ stop ≤ content.length then
    let characters := content.toList
    some (String.ofList (characters.take start),
      String.ofList ((characters.drop start).take (stop - start)),
      String.ofList (characters.drop stop))
  else none

/-- A text segment, unless the text is empty. -/
def textUnlessEmpty (content : String) : List Segment :=
  if content.isEmpty then [] else [.text content]

/-- Put an occurrence of wildcard `index` over a range of a text segment. There is none when the
range is empty, out of bounds, or lies on a wildcard. -/
def insert? (cell : Cell) (index : Nat) (range : SegmentRange) : Option CellInsertion :=
  match cell.segments[range.segment]? with
  | some (.text content) =>
    (splitText? content range.start range.stop).map fun (before, inside, after) =>
      let front := cell.segments.take range.segment ++ textUnlessEmpty before
      let segments := front ++ .wildcard index inside ::
        (textUnlessEmpty after ++ cell.segments.drop (range.segment + 1))
      { cell := ⟨segments⟩
        segment := front.length
        added := segments.length - cell.segments.length }
  | _ => none

/-- The text of a segment that is plain text. -/
def plainText? : Option Segment → Option String
  | some (.text content) => some content
  | _ => none

/-- Turn the wildcard in a segment back into the text it stands for, joined with the plain text on
either side. There is none when that segment holds no wildcard. -/
def remove? (cell : Cell) (segment : Nat) : Option CellRemoval :=
  match cell.segments[segment]? with
  | some (.wildcard _ content) =>
    let before := if segment = 0 then none else plainText? cell.segments[segment - 1]?
    let after := plainText? cell.segments[segment + 1]?
    let joined := before.getD "" ++ content ++ after.getD ""
    let first := segment - (if before.isSome then 1 else 0)
    let last := segment + (if after.isSome then 1 else 0)
    some
      { cell := ⟨cell.segments.take first ++ .text joined :: cell.segments.drop (last + 1)⟩
        removed := last - first }
  | _ => none

end Cell

end LogMotif
