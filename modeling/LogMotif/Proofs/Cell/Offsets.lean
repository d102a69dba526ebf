import LogMotif.Proofs.Cell.Rendering

/-! # Offsets in the shown text

Each segment of a cell covers a stretch of the shown text, which begins where the segments in front
of it end. A range that is not empty lies in the stretch of one segment at most, however many of the
segments are empty. It is resolved to that segment and to its offsets from where the segment begins;
any other range is not resolved.
-/

namespace LogMotif

namespace Cell

/-- Where the shown text of a segment begins in that of its cell. -/
def shownOffset (cell : Cell) (segment : Nat) : Nat :=
  (rendered ⟨cell.segments.take segment⟩).length

/-- Whether a range of the shown text of a cell is not empty and lies within the shown text of a
segment. -/
def Covers (cell : Cell) (segment start stop : Nat) : Prop :=
  start < stop ∧ ∃ found, cell.segments[segment]? = some found ∧ cell.shownOffset segment ≤ start ∧
    stop ≤ cell.shownOffset segment + found.rendered.length

variable {cell : Cell} {start stop : Nat} {range : SegmentRange}

theorem shownOffset_append (front back : List Segment) :
    shownOffset ⟨front ++ back⟩ front.length = (rendered ⟨front⟩).length := by
  rw [shownOffset, List.take_left]

/-- A range is located in the segment that covers it, at its offsets from where that begins. -/
private theorem located_iff_covers : Located cell start stop range ↔
    cell.Covers range.segment start stop ∧ start = cell.shownOffset range.segment + range.start ∧
      stop = cell.shownOffset range.segment + range.stop := by
  constructor
  · rintro ⟨front, back, segment, filled, inside⟩
    have begins := shownOffset_append front (segment :: back)
    refine ⟨⟨Nat.add_lt_add_left filled _, segment, by simp, ?_, ?_⟩, ?_, ?_⟩
    · rw [begins]
      exact Nat.le_add_right _ _
    · rw [begins]
      exact Nat.add_le_add_left inside _
    · rw [begins]
    · rw [begins]
  · rintro ⟨⟨filled, found, here, -, inside⟩, rfl, rfl⟩
    obtain ⟨segments⟩ := cell
    obtain ⟨segment, first, last⟩ := range
    obtain ⟨front, back, rfl, rfl⟩ := exists_append_cons here
    simp only [shownOffset_append] at filled inside ⊢
    exact .intro front back found (Nat.lt_of_add_lt_add_left filled)
      (Nat.le_of_add_le_add_left inside)

/-- A covered range is resolved. -/
theorem Covers.locate?_eq {segment : Nat} (covers : cell.Covers segment start stop) :
    cell.locate? start stop =
      some ⟨segment, start - cell.shownOffset segment, stop - cell.shownOffset segment⟩ := by
  rw [locate?_eq_some_iff, located_iff_covers]
  obtain ⟨filled, found, here, reached, inside⟩ := covers
  have bound := Nat.le_trans reached (Nat.le_of_lt filled)
  exact ⟨⟨filled, found, here, reached, inside⟩, (Nat.add_sub_cancel' reached).symm,
    (Nat.add_sub_cancel' bound).symm⟩

/-- What is shown in a located range is what its segment shows there. -/
theorem Located.shown_eq (located : Located cell start stop range) : ∃ found,
    cell.segments[range.segment]? = some found ∧
      (cell.rendered.toList.drop start).take (stop - start) =
        (found.rendered.toList.drop range.start).take (range.stop - range.start) := by
  obtain ⟨front, back, segment, filled, inside⟩ := located
  refine ⟨segment, by simp, ?_⟩
  have shown : (rendered ⟨front ++ segment :: back⟩).toList =
      (rendered ⟨front⟩).toList ++ (segment.rendered.toList ++ (rendered ⟨back⟩).toList) := by
    simp [rendered_append]
  rw [shown, ← String.length_toList, Nat.add_sub_add_left, List.drop_length_add_append]
  rw [← String.length_toList] at inside
  rw [List.drop_append_of_le_length (by omega), List.take_append_of_le_length]
  rw [List.length_drop]
  omega

/-- Whatever the segments of a cell are, a range of its shown text is resolved exactly if a segment
covers it: there is one such segment at most, and the offsets are those from where it begins. -/
theorem locate?_eq_iff_covers (cell : Cell) (start stop : Nat) :
    (∀ range, cell.locate? start stop = some range ↔
      cell.Covers range.segment start stop ∧ start = cell.shownOffset range.segment + range.start ∧
        stop = cell.shownOffset range.segment + range.stop) ∧
    (∀ range, cell.locate? start stop = some range → ∃ found,
      cell.segments[range.segment]? = some found ∧
        (cell.rendered.toList.drop start).take (stop - start) =
          (found.rendered.toList.drop range.start).take (range.stop - range.start)) ∧
    (∀ i j, cell.Covers i start stop → cell.Covers j start stop → i = j) ∧
    (cell.locate? start stop = none ↔ ∀ segment, ¬ cell.Covers segment start stop) := by
  refine ⟨fun range => locate?_eq_some_iff.trans located_iff_covers,
    fun range here => (locate?_eq_some_iff.mp here).shown_eq, fun i j atI atJ => ?_, ?_, ?_⟩
  · exact congrArg SegmentRange.segment
      (Option.some.inj (atI.locate?_eq.symm.trans atJ.locate?_eq))
  · intro unresolved segment covers
    rw [covers.locate?_eq] at unresolved
    cases unresolved
  · intro uncovered
    refine Option.eq_none_iff_forall_ne_some.mpr fun range here => uncovered range.segment ?_
    exact (located_iff_covers.mp (locate?_eq_some_iff.mp here)).1

/-- The range behind a marker and an empty segment, and one that begins in front of the marker and
ends in it. -/
theorem locate?_beside_empty_segments :
    let cell : Cell := ⟨[.text "", .text "a=", .wildcard 9 "x", .text "", .text ";ö"]⟩
    cell.rendered = "a=?10;ö" ∧ cell.locate? 5 7 = some ⟨4, 0, 2⟩ ∧
      (∀ segment, cell.Covers segment 5 7 → segment = 4) ∧
      ∀ segment, ¬ cell.Covers segment 1 3 := by
  intro cell
  have covers : cell.Covers 4 5 7 :=
    ⟨by decide, .text ";ö", rfl, by decide +kernel, by decide +kernel⟩
  obtain ⟨resolved, -, unique, -⟩ := locate?_eq_iff_covers cell 5 7
  obtain ⟨-, -, -, unresolved⟩ := locate?_eq_iff_covers cell 1 3
  exact ⟨by decide +kernel,
    (resolved ⟨4, 0, 2⟩).mpr ⟨covers, by decide +kernel, by decide +kernel⟩,
    fun segment there => unique segment 4 there covers, unresolved.mp (by decide +kernel)⟩

end Cell

end LogMotif
