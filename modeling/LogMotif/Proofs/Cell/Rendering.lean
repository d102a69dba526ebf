import LogMotif.Proofs.Cell.Positions

/-! # Ranges of the shown text

The shown text of a cell is that of its segments, one behind the other. A range of it is located in
a segment when all its characters come from that segment. The segments are gone through with the
number of characters shown before them, and the first one that reaches behind the start of the
range decides. A wildcard can be put over the range when that segment is plain text.
-/

namespace LogMotif

namespace Cell

/-- A range of the shown text of a cell that is not empty and lies within one segment. -/
inductive Located : Cell → Nat → Nat → SegmentRange → Prop
  | intro (front back : List Segment) (segment : Segment) {start stop : Nat} (filled : start < stop)
      (inside : stop ≤ segment.rendered.length) :
      Located ⟨front ++ segment :: back⟩ ((rendered ⟨front⟩).length + start)
        ((rendered ⟨front⟩).length + stop) ⟨front.length, start, stop⟩

@[simp]
theorem rendered_nil : rendered ⟨[]⟩ = "" := rfl

@[simp]
theorem rendered_cons (segment : Segment) (rest : List Segment) :
    rendered ⟨segment :: rest⟩ = segment.rendered ++ rendered ⟨rest⟩ := by
  simp [rendered]

private theorem not_located_nil {start stop : Nat} {range : SegmentRange} :
    ¬ Located ⟨[]⟩ start stop range := by
  generalize isCell : (⟨[]⟩ : Cell) = cell
  rintro ⟨front, back, segment, -, -⟩
  simp at isCell

/-- A range is located in the first segment, or among the others once that segment is cut off. -/
private theorem located_cons_iff {first : Segment} {rest : List Segment} {start stop : Nat}
    {range : SegmentRange} :
    Located ⟨first :: rest⟩ start stop range ↔
      (start < stop ∧ stop ≤ first.rendered.length ∧ range = ⟨0, start, stop⟩) ∨
        (first.rendered.length ≤ start ∧ ∃ found, Located ⟨rest⟩ (start - first.rendered.length)
          (stop - first.rendered.length) found ∧
            range = ⟨found.segment + 1, found.start, found.stop⟩) := by
  constructor
  -- the cell of a located range is written as an append, so the equation with the cons is kept apart
  · generalize isCell : (⟨first :: rest⟩ : Cell) = cell
    rintro ⟨front, back, segment, filled, inside⟩
    rcases List.cons_eq_append_iff.mp (Cell.mk.inj isCell) with ⟨rfl, same⟩ | ⟨others, rfl, rfl⟩
    · obtain ⟨rfl, -⟩ := List.cons.inj same
      exact .inl ⟨by simpa using filled, by simpa using inside, by simp⟩
    · refine .inr ⟨?_, ⟨others.length, _, _⟩, ?_, rfl⟩
      · rw [rendered_cons, String.length_append]
        omega
      · simpa [Nat.add_assoc] using Located.intro others back segment filled inside
  · rintro (⟨filled, inside, rfl⟩ | ⟨behind, found, located, rfl⟩)
    · simpa using Located.intro [] rest first filled inside
    · obtain ⟨start, rfl⟩ := Nat.exists_eq_add_of_le behind
      rw [Nat.add_sub_cancel_left] at located
      generalize isStop : stop - first.rendered.length = cut at located
      obtain ⟨front, back, segment, filled, inside⟩ := located
      obtain rfl := Nat.eq_add_of_sub_eq (by omega) isStop
      simpa [Nat.add_assoc, Nat.add_comm] using
        Located.intro (first :: front) back segment filled inside

/-- The search for a range among segments that begin no later than the range. -/
private theorem locateFrom?_eq_some_iff {start stop index offset : Nat} {segments : List Segment}
    {range : SegmentRange} (filled : start < stop) (reached : offset ≤ start) :
    locateFrom? start stop segments index offset = some range ↔
      ∃ found, Located ⟨segments⟩ (start - offset) (stop - offset) found ∧
        range = ⟨index + found.segment, found.start, found.stop⟩ := by
  induction segments generalizing index offset with
  | nil => simp [locateFrom?, not_located_nil]
  | cons first rest ih =>
    have ordered : start - offset < stop - offset := by omega
    simp only [locateFrom?, reached, true_and, located_cons_iff, ordered]
    split
    next inside =>
      have within : stop - offset ≤ first.rendered.length := by omega
      -- a range that begins in the first segment is not one of the others
      have early : ¬ first.rendered.length ≤ start - offset := by omega
      simp [within, early, eq_comm]
    next outside =>
      have long : ¬ stop - offset ≤ first.rendered.length := by omega
      split
      next crossing =>
        have early : ¬ first.rendered.length ≤ start - offset := by omega
        simp [long, early]
      next behind =>
        have late : first.rendered.length ≤ start - offset := by omega
        rw [ih (by omega)]
        simp only [long, late, Nat.sub_sub, false_and, false_or, true_and]
        constructor
        · rintro ⟨found, located, rfl⟩
          exact ⟨_, ⟨found, located, rfl⟩, by simp only [Nat.add_assoc, Nat.add_comm 1]⟩
        · rintro ⟨_, ⟨found, located, rfl⟩, rfl⟩
          exact ⟨found, located, by simp only [Nat.add_assoc, Nat.add_comm 1]⟩

/-- When a range of the shown text lies within one segment, and which characters it stands for. -/
theorem locate?_eq_some_iff {cell : Cell} {start stop : Nat} {range : SegmentRange} :
    cell.locate? start stop = some range ↔ Located cell start stop range := by
  unfold locate?
  split
  next filled =>
    rw [locateFrom?_eq_some_iff filled (Nat.zero_le start)]
    simp
  next empty =>
    simp only [reduceCtorEq, false_iff]
    rintro ⟨front, back, segment, filled, -⟩
    omega

/-! ### Ranges of plain text -/

/-- Whether a range of the shown text is not empty and lies within one text segment. -/
def HasTextAt (cell : Cell) (start stop : Nat) : Prop :=
  start < stop ∧ ∃ front text back, cell.segments = front ++ .text text :: back ∧
    (rendered ⟨front⟩).length ≤ start ∧ stop ≤ (rendered ⟨front⟩).length + text.length

/-- Whether a wildcard has been put over a range of the shown text of a cell. Its segment stands for
the characters of the range, between what is shown in front of the range and behind it; the other
wildcards are those of the cell. -/
def Overlaid (index start stop : Nat) (old new : Cell) : Prop :=
  ∃ front original back, new.segments = front ++ .wildcard index original :: back ∧
    (rendered ⟨front⟩).toList = old.rendered.toList.take start ∧
    original.toList = (old.rendered.toList.drop start).take (stop - start) ∧
    (rendered ⟨back⟩).toList = old.rendered.toList.drop stop ∧
    (front ++ back).filter (·.wildcard?.isSome) = old.segments.filter (·.wildcard?.isSome)

theorem rendered_append (front back : List Segment) :
    rendered ⟨front ++ back⟩ = rendered ⟨front⟩ ++ rendered ⟨back⟩ := by
  simp [rendered]

theorem rendered_textUnlessEmpty (text : String) : rendered ⟨textUnlessEmpty text⟩ = text := by
  unfold textUnlessEmpty
  split
  next empty => simp_all
  next => simp [Segment.rendered]

variable {index start stop : Nat} {old new cell : Cell} {range : SegmentRange}

/-- The shown text of a cell with a wildcard put over a range. -/
theorem Overlaid.rendered_eq (overlaid : Overlaid index start stop old new) :
    new.rendered = String.ofList (old.rendered.toList.take start) ++ ("?" ++ toString (index + 1)) ++
      String.ofList (old.rendered.toList.drop stop) := by
  obtain ⟨front, original, back, segments_eq, isFront, -, isBack, -⟩ := overlaid
  obtain ⟨segments⟩ := new
  obtain rfl : segments = _ := segments_eq
  rw [← isFront, ← isBack, String.ofList_toList, String.ofList_toList, rendered_append,
    rendered_cons, Segment.rendered, ← String.append_assoc]

/-- A wildcard can be put over the ranges that lie within one text segment. -/
theorem hasTextAt_iff (index : Nat) : cell.HasTextAt start stop ↔
    ∃ range insertion, Located cell start stop range ∧ Inserted index cell range insertion := by
  simp only [← insert?_eq_some_iff]
  constructor
  · rintro ⟨filled, front, text, back, isCell, reached, fits⟩
    obtain ⟨segments⟩ := cell
    obtain rfl : segments = _ := isCell
    obtain ⟨first, rfl⟩ := Nat.exists_eq_add_of_le reached
    obtain ⟨last, rfl⟩ := Nat.exists_eq_add_of_le (Nat.le_of_lt (Nat.lt_of_le_of_lt reached filled))
    have inside : first < last ∧ last ≤ text.length := by omega
    obtain ⟨insertion, inserted⟩ : ∃ insertion,
        insert? ⟨front ++ .text text :: back⟩ index ⟨front.length, first, last⟩ = some insertion := by
      simp [insert?, splitText?, inside]
    exact ⟨_, insertion, .intro front back (.text text) inside.1 inside.2, inserted⟩
  · rintro ⟨range, insertion, ⟨front, back, segment, filled, inside⟩, inserted⟩
    cases segment with
    | wildcard => simp [insert?] at inserted
    | text text =>
      exact ⟨by omega, front, text, back, rfl, Nat.le_add_right _ _, Nat.add_le_add_left inside _⟩

/-- A wildcard put over the range that a part of the shown text is located in covers that part. -/
theorem Located.overlaid {insertion : CellInsertion} (located : Located old start stop range)
    (inserted : Inserted index old range insertion) :
    Overlaid index start stop old insertion.cell := by
  obtain ⟨front, back, before, inside, after, filled⟩ := inserted
  -- both relations split the cell at the same segment, so the two splits are equated first
  generalize isCell : (⟨front ++ .text (before ++ inside ++ after) :: back⟩ : Cell) = cell at located
  generalize isRange : SegmentRange.mk front.length before.length (before.length + inside.length) =
    range at located
  obtain ⟨others, rest, segment, -, -⟩ := located
  obtain ⟨lengths, rfl, rfl⟩ := SegmentRange.mk.inj isRange
  obtain ⟨rfl, same⟩ := List.append_inj (Cell.mk.inj isCell) lengths
  obtain ⟨rfl, rfl⟩ := List.cons.inj same
  let left := (rendered ⟨front ++ textUnlessEmpty before⟩).toList
  let right := (rendered ⟨textUnlessEmpty after ++ back⟩).toList
  have shown : (rendered ⟨front ++ .text (before ++ inside ++ after) :: back⟩).toList =
      left ++ (inside.toList ++ right) := by
    simp [left, right, rendered_append, rendered_textUnlessEmpty, Segment.rendered]
  have starts : (rendered ⟨front⟩).length + before.length = left.length := by
    rw [String.length_toList, rendered_append, rendered_textUnlessEmpty, String.length_append]
  have stops : (rendered ⟨front⟩).length + (before.length + inside.length) =
      left.length + inside.toList.length := by
    rw [← starts, String.length_toList, Nat.add_assoc]
  have plain (text : String) : (textUnlessEmpty text).filter (·.wildcard?.isSome) = [] :=
    List.filter_eq_nil_iff.mpr fun segment member => by
      simp [wildcard?_eq_none_of_mem_textUnlessEmpty member]
  have plainHere (text : String) : (Segment.text text).wildcard? = none := rfl
  refine ⟨front ++ textUnlessEmpty before, inside, textUnlessEmpty after ++ back, by simp, ?_⟩
  rw [shown, starts, stops, Nat.add_sub_cancel_left, List.drop_left, List.take_left, List.take_left,
    ← List.drop_drop, List.drop_left, List.drop_left]
  simp [left, right, plain, plainHere]

end Cell

end LogMotif
