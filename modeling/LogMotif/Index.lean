/-! # Bounded indices

Rows, entries, cells, segments and wildcards are numbered by machine words. An index is kept here
as a natural number, and the two operations that could leave the range of a word stop at its end.
Away from that end they are ordinary addition and an ordinary shift.
-/

namespace LogMotif.Index

/-- The greatest index a machine word holds. -/
def greatest : Nat := 0xFFFFFFFFFFFFFFFF

/-- The sum of two indices, stopping at the greatest index. -/
def add (left right : Nat) : Nat := min (left + right) greatest

/-- An index moved by a signed amount, stopping at zero and at the greatest index. -/
def shift (index : Nat) (delta : Int) : Nat := min ((index : Int) + delta).toNat greatest

theorem add_eq_of_le {left right : Nat} (fits : left + right ≤ greatest) :
    add left right = left + right := Nat.min_eq_left fits

theorem add_le_greatest (left right : Nat) : add left right ≤ greatest := Nat.min_le_right ..

theorem shift_le_greatest (index : Nat) (delta : Int) : shift index delta ≤ greatest :=
  Nat.min_le_right ..

end LogMotif.Index
