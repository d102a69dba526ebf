import LogMotif.Index

/-! # Links between neighbouring entries

A link bounds the distance from the row of one entry to the row of the next. Distances count rows,
so adjacent rows are one apart and a distance of zero is never allowed.
-/

namespace LogMotif

/-- The distances allowed between the rows of two neighbouring entries. -/
inductive Link where
  /-- The next row may be any later row. -/
  | any
  /-- The next row is exactly so many rows further down. -/
  | exactly (rows : Nat)
  /-- The next row is at most so many rows further down. -/
  | atMost (rows : Nat)
deriving DecidableEq, Repr

namespace Link

/-- The state after this one on the link switch: any, adjacent, bounded by `gap`, any again. -/
def cycled (gap : Nat) : Link → Link
  | any => exactly 1
  | exactly _ => atMost gap
  | atMost _ => any

/-- A link is valid when it allows a positive distance only. -/
def isValid : Link → Bool
  | any => true
  | exactly rows | atMost rows => decide (1 ≤ rows)

/-- The rows the next entry may occupy after `previous`: from the first component up to, and
without, the second. -/
def window (previous : Nat) : Link → Nat × Nat
  | any => (Index.add previous 1, Index.greatest)
  | exactly rows => (Index.add previous rows, Index.add (Index.add previous rows) 1)
  | atMost rows => (Index.add previous 1, Index.add (Index.add previous rows) 1)

/-- The link as it is named in an error message. -/
def describe : Link → String
  | any => "Any"
  | exactly rows => s!"Exactly({rows})"
  | atMost rows => s!"AtMost({rows})"

end Link

end LogMotif
