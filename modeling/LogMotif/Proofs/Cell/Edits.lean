import Mathlib.Data.List.Chain
import LogMotif.Cell

/-! # What edits do to a cell

Putting a wildcard into a cell and taking it out again are inverse splices of one text segment. Both
are described once, as relations between the segments before and after; what they keep is read off
from that: the text that the cell stands for, and the normal form in which text is neither empty nor
split without need.
-/

namespace LogMotif

namespace Cell

/-- A wildcard put over a stretch of one text segment of a cell. -/
inductive Inserted (index : Nat) : Cell → SegmentRange → CellInsertion → Prop
  | intro (front back : List Segment) (before inside after : String) (filled : inside ≠ "") :
      Inserted index ⟨front ++ .text (before ++ inside ++ after) :: back⟩
        ⟨front.length, before.length, before.length + inside.length⟩
        { cell := ⟨front ++ textUnlessEmpty before ++
            .wildcard index inside :: (textUnlessEmpty after ++ back)⟩
          segment := front.length + (textUnlessEmpty before).length
          added := (textUnlessEmpty before).length + (textUnlessEmpty after).length }

/-- The text on one side of a segment, if there is any. -/
def side (text : Option String) : List Segment := text.toList.map .text

/-- A wildcard taken out of a cell, its text joined with the text on either side. -/
inductive Removed (index : Nat) : Cell → Nat → CellRemoval → Prop
  | intro (front back : List Segment) (before after : Option String) (content : String)
      (left : before = none → plainText? front.getLast? = none)
      (right : after = none → plainText? back.head? = none) :
      Removed index
        ⟨front ++ side before ++ .wildcard index content :: (side after ++ back)⟩
        (front.length + (side before).length)
        { cell := ⟨front ++ .text (before.getD "" ++ content ++ after.getD "") :: back⟩
          removed := (side before).length + (side after).length }

theorem splitText?_eq_some_iff {content before inside after : String} {start stop : Nat} :
    splitText? content start stop = some (before, inside, after) ↔
      content = before ++ inside ++ after ∧ inside ≠ "" ∧ before.length = start ∧
        before.length + inside.length = stop := by
  unfold splitText?
  split
  next inBounds =>
    obtain ⟨ordered, fits⟩ := inBounds
    rw [← String.length_toList] at fits
    simp only [Option.some.injEq, Prod.mk.injEq]
    constructor
    · rintro ⟨rfl, rfl, rfl⟩
      have filled : min (stop - start) (content.toList.length - start) = stop - start := by omega
      refine ⟨?_, ?_, ?_, ?_⟩
      · have rest : content.toList.drop stop = (content.toList.drop start).drop (stop - start) := by
          rw [List.drop_drop, Nat.add_sub_cancel' (Nat.le_of_lt ordered)]
        rw [← String.ofList_append, ← String.ofList_append, rest, List.append_assoc,
          List.take_append_drop, List.take_append_drop, String.ofList_toList]
      · rw [ne_eq, ← String.length_eq_zero_iff, String.length_ofList, List.length_take,
          List.length_drop, filled]
        omega
      · rw [String.length_ofList, List.length_take]
        omega
      · rw [String.length_ofList, String.length_ofList, List.length_take, List.length_take,
          List.length_drop, filled]
        omega
    · rintro ⟨rfl, filled, rfl, rfl⟩
      simp [String.toList_append, ← String.length_toList]
  next outside =>
    simp only [reduceCtorEq, false_iff]
    rintro ⟨rfl, filled, rfl, rfl⟩
    have := mt String.length_eq_zero_iff.mp filled
    simp only [String.length_append] at outside
    omega

theorem exists_append_cons {α : Type} {list : List α} {k : Nat} {item : α}
    (here : list[k]? = some item) : ∃ front back, list = front ++ item :: back ∧ front.length = k := by
  obtain ⟨inside, rfl⟩ := List.getElem?_eq_some_iff.mp here
  refine ⟨list.take k, list.drop (k + 1), ?_, ?_⟩
  · rw [List.getElem_cons_drop, List.take_append_drop]
  · rw [List.length_take, Nat.min_eq_left (Nat.le_of_lt inside)]

theorem insert?_eq_some (index : Nat) (front back : List Segment) (before after : String)
    {inside : String} (filled : inside ≠ "") :
    insert? ⟨front ++ .text (before ++ inside ++ after) :: back⟩ index
        ⟨front.length, before.length, before.length + inside.length⟩ =
      some {
        cell := ⟨front ++ textUnlessEmpty before ++
          .wildcard index inside :: (textUnlessEmpty after ++ back)⟩
        segment := front.length + (textUnlessEmpty before).length
        added := (textUnlessEmpty before).length + (textUnlessEmpty after).length } := by
  have split : splitText? (before ++ inside ++ after) before.length
      (before.length + inside.length) = some (before, inside, after) :=
    splitText?_eq_some_iff.mpr ⟨rfl, filled, rfl, rfl⟩
  simp [insert?, split]
  omega

/-- When a wildcard can be put into a cell, and what becomes of the cell. -/
theorem insert?_eq_some_iff {cell : Cell} {index : Nat} {range : SegmentRange}
    {insertion : CellInsertion} :
    cell.insert? index range = some insertion ↔ Inserted index cell range insertion := by
  constructor
  · intro inserted
    obtain ⟨segments⟩ := cell
    obtain ⟨segment, start, stop⟩ := range
    cases here : segments[segment]? with
    | none => simp [insert?, here] at inserted
    | some found =>
      cases found with
      | wildcard => simp [insert?, here] at inserted
      | text content =>
        obtain ⟨front, back, rfl, rfl⟩ := exists_append_cons here
        simp only [insert?, here] at inserted
        obtain ⟨⟨before, inside, after⟩, split, -⟩ := Option.map_eq_some_iff.mp inserted
        obtain ⟨rfl, filled, rfl, rfl⟩ := splitText?_eq_some_iff.mp split
        have same := insert?_eq_some index front back before after filled
        simp only [insert?, here] at same
        obtain rfl := Option.some.inj (inserted.symm.trans same)
        exact .intro front back before inside after filled
  · rintro ⟨front, back, before, inside, after, filled⟩
    exact insert?_eq_some index front back before after filled

private theorem plainText?_append_side (before : Option String) {front : List Segment}
    (rest : List Segment) (left : before = none → plainText? front.getLast? = none) :
    (if front.length + (side before).length = 0 then none
      else plainText? (front ++ side before ++ rest)[front.length + (side before).length - 1]?) =
      before := by
  cases before with
  | none =>
    have last := left rfl
    by_cases empty : front.length = 0
    · simp [side, empty]
    · have inside : front.length - 1 < front.length := by omega
      rw [List.getLast?_eq_getElem?] at last
      simp [side, empty, List.getElem?_append_left inside, last]
  | some content => simp [side, plainText?]

private theorem plainText?_side_append (after : Option String) {back : List Segment}
    (right : after = none → plainText? back.head? = none) :
    plainText? (side after ++ back)[0]? = after := by
  cases after with
  | none => simpa [side, List.head?_eq_getElem?] using right rfl
  | some content => rfl

theorem remove?_eq_some (index : Nat) {front back : List Segment} {before after : Option String}
    (content : String) (left : before = none → plainText? front.getLast? = none)
    (right : after = none → plainText? back.head? = none) :
    remove? ⟨front ++ side before ++ .wildcard index content :: (side after ++ back)⟩
        (front.length + (side before).length) =
      some {
        cell := ⟨front ++ .text (before.getD "" ++ content ++ after.getD "") :: back⟩
        removed := (side before).length + (side after).length } := by
  let segments := front ++ side before ++ .wildcard index content :: (side after ++ back)
  let segment := front.length + (side before).length
  have here : segments[segment]? = some (.wildcard index content) := by simp [segments, segment]
  have next : segments[segment + 1]? = (side after ++ back)[0]? := by
    have behind : segment + 1 - (front ++ side before).length = 1 := by simp [segment]
    rw [List.getElem?_append_right (by simp [segment, Nat.add_assoc]), behind]
    rfl
  have isFirst : segment - (if before.isSome then 1 else 0) = front.length := by
    cases before <;> simp [segment, side]
  have isLast : segment + (if after.isSome then 1 else 0) = segment + (side after).length := by
    cases after <;> simp [side]
  have cutFront : segments.take front.length = front := by simp [segments]
  have cutBack : segments.drop (segment + (side after).length + 1) = back := by
    have split : segments =
        (front ++ side before ++ .wildcard index content :: side after) ++ back := by
      simp [segments]
    rw [split]
    apply List.drop_left'
    simp only [segment, List.length_append, List.length_cons]
    omega
  have isBefore := plainText?_append_side before
    (.wildcard index content :: (side after ++ back)) left
  change remove? ⟨segments⟩ segment = _
  simp only [remove?, here, next, plainText?_side_append after right, isLast, cutBack]
  rw [show (if segment = 0 then none else plainText? segments[segment - 1]?) = before from isBefore,
    isFirst, cutFront]
  have lost : segment + (side after).length - front.length =
      (side before).length + (side after).length := by
    simp only [segment]
    omega
  rw [lost]

private theorem exists_append_side (segments : List Segment) :
    ∃ front before, segments = front ++ side before ∧
      (before = none → plainText? front.getLast? = none) := by
  cases last : plainText? segments.getLast? with
  | none => exact ⟨segments, none, by simp [side], fun _ => last⟩
  | some content =>
    refine ⟨segments.dropLast, some content, ?_, by simp⟩
    have isLast : segments.getLast? = some (.text content) := by
      unfold plainText? at last
      split at last <;> simp_all
    exact (List.dropLast_append_getLast? _ isLast).symm

private theorem exists_side_append (segments : List Segment) :
    ∃ after back, segments = side after ++ back ∧
      (after = none → plainText? back.head? = none) := by
  cases segments with
  | nil => exact ⟨none, [], rfl, by simp [plainText?]⟩
  | cons first back =>
    cases first with
    | text content => exact ⟨some content, back, rfl, by simp⟩
    | wildcard index content =>
      exact ⟨none, .wildcard index content :: back, rfl, by simp [plainText?]⟩

/-- When a wildcard can be taken out of a cell, and what becomes of the cell. -/
theorem remove?_eq_some_iff {cell : Cell} {segment : Nat} {removal : CellRemoval} :
    cell.remove? segment = some removal ↔ ∃ index, Removed index cell segment removal := by
  constructor
  · intro removed
    obtain ⟨segments⟩ := cell
    cases here : segments[segment]? with
    | none => simp [remove?, here] at removed
    | some found =>
      cases found with
      | text => simp [remove?, here] at removed
      | wildcard index content =>
        obtain ⟨front, back, rfl, rfl⟩ := exists_append_cons here
        obtain ⟨front, before, rfl, left⟩ := exists_append_side front
        obtain ⟨after, back, rfl, right⟩ := exists_side_append back
        rw [List.length_append, remove?_eq_some index content left right] at removed
        obtain rfl := Option.some.inj removed
        rw [List.length_append]
        exact ⟨index, .intro front back before after content left right⟩
  · rintro ⟨index, front, back, before, after, content, left, right⟩
    exact remove?_eq_some index content left right

end Cell

end LogMotif
