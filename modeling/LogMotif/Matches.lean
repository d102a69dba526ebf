/-! # Matches

The matches of a search in the order of the log, the rows that take part in them, and a cursor that
walks round the list of matches.
-/

namespace LogMotif

/-- One match: the row of each entry. -/
abbrev Match := List Nat

/-- All matches of a motif, in the order of the log. -/
structure Matches where
  list : List Match
deriving DecidableEq, Repr

namespace Matches

/-- Put a row into an ascending list of rows, unless it is there. -/
def insertRow (row : Nat) : List Nat → List Nat
  | [] => [row]
  | first :: rest =>
    if row < first then row :: first :: rest
    else if row = first then first :: rest
    else first :: insertRow row rest

/-- The rows that take part in some match, in ascending order. -/
def rows (found : Matches) : List Nat := (found.list.flatten).foldr insertRow []

private theorem mem_insertRow_iff {row other : Nat} {rows : List Nat} :
    other ∈ insertRow row rows ↔ other = row ∨ other ∈ rows := by
  fun_induction insertRow row rows <;> simp_all [or_left_comm]

private theorem pairwise_insertRow (row : Nat) {rows : List Nat}
    (ascending : rows.Pairwise (· < ·)) :
    (insertRow row rows).Pairwise (· < ·) := by
  fun_induction insertRow row rows with
  | case1 => simp
  | case2 first rest before =>
    refine List.pairwise_cons.mpr ⟨fun other member => ?_, ascending⟩
    rcases List.mem_cons.mp member with rfl | later
    · exact before
    · exact Nat.lt_trans before ((List.pairwise_cons.mp ascending).1 other later)
  | case3 => exact ascending
  | case4 first rest notBefore different ih =>
    obtain ⟨later, ascending⟩ := List.pairwise_cons.mp ascending
    refine List.pairwise_cons.mpr ⟨fun other member => ?_, ih ascending⟩
    rcases mem_insertRow_iff.mp member with rfl | member
    · omega
    · exact later other member

/-- The rows of some matches are those that occur in one of them. -/
theorem mem_rows_iff {found : Matches} {row : Nat} :
    row ∈ found.rows ↔ ∃ chain ∈ found.list, row ∈ chain := by
  rw [← List.mem_flatten, rows]
  induction found.list.flatten with
  | nil => rfl
  | cons first rest ih => rw [List.foldr_cons, mem_insertRow_iff, ih, List.mem_cons]

theorem pairwise_rows (found : Matches) : found.rows.Pairwise (· < ·) := by
  rw [rows]
  induction found.list.flatten with
  | nil => exact .nil
  | cons first rest ih => exact pairwise_insertRow first ih

/-- Whether a row takes part in some match. -/
def containsRow (found : Matches) (row : Nat) : Bool := found.rows.contains row

/-- The number of matches. -/
def count (found : Matches) : Nat := found.list.length

end Matches

/-- A place in a list of matches. -/
structure Cursor where
  current : Option Nat
  total : Nat
deriving DecidableEq, Repr

namespace Cursor

/-- A cursor on the first of so many matches, or nowhere if there are none. -/
def start (total : Nat) : Cursor where
  current := if total = 0 then none else some 0
  total := total

/-- The cursor on the next match; behind the last comes the first. -/
def next (cursor : Cursor) : Cursor :=
  { cursor with
    current := cursor.current.map fun index => if index + 1 < cursor.total then index + 1 else 0 }

/-- The cursor on the previous match; in front of the first comes the last. -/
def previous (cursor : Cursor) : Cursor :=
  { cursor with
    current := cursor.current.map fun index => if index = 0 then cursor.total - 1 else index - 1 }

end Cursor

end LogMotif
