import Mathlib.Data.List.Nodup
import LogMotif.Proofs.Cell.Positions

/-! # The spans of a cell

The wildcards of a cell cover stretches of the text that the cell stands for. Segments move, split
and join under an edit, while a span stays where it is in the text: a wildcard put into a cell adds
its span to the others, and a wildcard taken out leaves them.
-/

namespace LogMotif

/-- A stretch of characters of the text of a cell, and the wildcard that covers it. -/
structure Span where
  start : Nat
  stop : Nat
  wildcard : Nat
deriving DecidableEq, Repr

namespace Span

/-- The same stretch under another wildcard. -/
def relabel (rename : Nat → Nat) (span : Span) : Span :=
  { span with wildcard := rename span.wildcard }

/-- Whether two spans are the same stretch, under whatever wildcards. -/
def SameStretch (left right : Span) : Prop := left.start = right.start ∧ left.stop = right.stop

end Span

namespace Cell

/-- The spans of segments of which the first begins at character `offset`. -/
def spansFrom (offset : Nat) : List Segment → List Span
  | [] => []
  | .text content :: rest => spansFrom (offset + content.length) rest
  | .wildcard index content :: rest =>
    ⟨offset, offset + content.length, index⟩ :: spansFrom (offset + content.length) rest

/-- The spans of a cell, from left to right. -/
def spans (cell : Cell) : List Span := spansFrom 0 cell.segments

/-- Where a segment begins in the text of its cell. -/
def offset (cell : Cell) (segment : Nat) : Nat := (content ⟨cell.segments.take segment⟩).length

/-- The span of the wildcard in a segment. -/
def spanAt? (cell : Cell) (segment : Nat) : Option Span := do
  let found ← cell.segments[segment]?
  let wildcard ← found.wildcard?
  let start := cell.offset segment
  return ⟨start, start + found.content.length, wildcard⟩

section

variable {cell : Cell} {segment index : Nat} {text : String}

@[simp]
theorem content_nil : content ⟨[]⟩ = "" := rfl

@[simp]
theorem content_cons (first : Segment) (rest : List Segment) :
    content ⟨first :: rest⟩ = first.content ++ content ⟨rest⟩ := by
  simp [content]

@[simp]
theorem content_append (front back : List Segment) :
    content ⟨front ++ back⟩ = content ⟨front⟩ ++ content ⟨back⟩ := by
  simp [content]

theorem content_textUnlessEmpty (text : String) : content ⟨textUnlessEmpty text⟩ = text :=
  join_textUnlessEmpty text

theorem content_side (text : Option String) : content ⟨side text⟩ = text.getD "" := join_side text

theorem spanAt?_append_wildcard (front back : List Segment) (index : Nat) (content : String) :
    let start := (Cell.content ⟨front⟩).length
    spanAt? ⟨front ++ .wildcard index content :: back⟩ front.length =
      some ⟨start, start + content.length, index⟩ := by
  simp [spanAt?, offset, Segment.wildcard?, Segment.content]

theorem spansFrom_append (offset : Nat) (front back : List Segment) :
    spansFrom offset (front ++ back) =
      spansFrom offset front ++ spansFrom (offset + (content ⟨front⟩).length) back := by
  induction front generalizing offset with
  | nil => simp [spansFrom]
  | cons first front ih => cases first <;> simp [spansFrom, ih, Segment.content, Nat.add_assoc]

theorem spansFrom_eq_nil_of_plain {texts : List Segment}
    (plain : ∀ segment ∈ texts, segment.wildcard? = none) (offset : Nat) :
    spansFrom offset texts = [] := by
  induction texts generalizing offset with
  | nil => rfl
  | cons first texts ih =>
    cases first with
    | text content => exact ih (List.forall_mem_cons.mp plain).2 _
    | wildcard index content => simp [Segment.wildcard?] at plain

theorem map_wildcard_spansFrom (offset : Nat) (segments : List Segment) :
    (spansFrom offset segments).map Span.wildcard = segments.filterMap Segment.wildcard? := by
  induction segments generalizing offset with
  | nil => rfl
  | cons first segments ih =>
    cases first <;> simp [spansFrom, ih, List.filterMap_cons, Segment.wildcard?]

/-- A span is that of a wildcard which stands behind the segments that make up its start. -/
private theorem exists_append_of_mem_spansFrom {offset : Nat} {segments : List Segment}
    {span : Span} (member : span ∈ spansFrom offset segments) :
    ∃ front back index text,
      segments = front ++ .wildcard index text :: back ∧
        span.start = offset + (content ⟨front⟩).length ∧
        span.stop = offset + ((content ⟨front⟩).length + text.length) ∧ span.wildcard = index := by
  induction segments generalizing offset with
  | nil => simp [spansFrom] at member
  | cons first segments ih =>
    have later (inRest : span ∈ spansFrom (offset + first.content.length) segments) :
        ∃ front back index text, first :: segments = front ++ .wildcard index text :: back ∧
          span.start = offset + (content ⟨front⟩).length ∧
          span.stop = offset + ((content ⟨front⟩).length + text.length) ∧
          span.wildcard = index := by
      obtain ⟨front, back, index, text, rfl, start, stop, label⟩ := ih inRest
      refine ⟨first :: front, back, index, text, rfl, ?_, ?_, label⟩
      · rw [start, content_cons, String.length_append, Nat.add_assoc]
      · rw [stop, content_cons, String.length_append, Nat.add_assoc, Nat.add_assoc]
    cases first with
    | text content => exact later member
    | wildcard index text =>
      rcases List.mem_cons.mp member with rfl | inRest
      · exact ⟨[], segments, index, text, rfl, by simp, by simp, rfl⟩
      · exact later inRest

/-- The spans of a cell are those of its segments. -/
theorem mem_spans_iff {span : Span} :
    span ∈ cell.spans ↔ ∃ segment, cell.spanAt? segment = some span := by
  obtain ⟨segments⟩ := cell
  constructor
  · intro member
    obtain ⟨front, back, index, text, rfl, start, stop, label⟩ :=
      exists_append_of_mem_spansFrom member
    refine ⟨front.length, ?_⟩
    rw [spanAt?_append_wildcard]
    cases span
    simp_all
  · rintro ⟨segment, here⟩
    obtain ⟨found, isFound, isSpan⟩ := Option.bind_eq_some_iff.mp here
    obtain ⟨front, back, rfl, rfl⟩ := exists_append_cons isFound
    cases found with
    | text => simp [Segment.wildcard?] at isSpan
    | wildcard index text =>
      rw [spanAt?_append_wildcard] at here
      obtain rfl := Option.some.inj here
      simp [spans, spansFrom_append, spansFrom]

/-- The wildcards with a span are those with a segment. -/
theorem exists_span_iff : (∃ span ∈ cell.spans, span.wildcard = index) ↔
    ∃ segment, cell.wildcardAt? segment = some index := by
  rw [← List.mem_map, spans, map_wildcard_spansFrom, List.mem_filterMap]
  simp only [wildcardAt?, Option.bind_eq_some_iff, List.mem_iff_getElem?]
  constructor
  · rintro ⟨found, ⟨segment, here⟩, holds⟩
    exact ⟨segment, found, here, holds⟩
  · rintro ⟨segment, found, here, holds⟩
    exact ⟨found, ⟨segment, here⟩, holds⟩

/-- Where wildcards stand for some text, a span is not empty and ends before the next one begins. -/
theorem pairwise_spansFrom (offset : Nat) {segments : List Segment}
    (filled : ∀ index content, .wildcard index content ∈ segments → content ≠ "") :
    (∀ span ∈ spansFrom offset segments, offset ≤ span.start ∧ span.start < span.stop) ∧
      (spansFrom offset segments).Pairwise fun left right => left.stop ≤ right.start := by
  induction segments generalizing offset with
  | nil => simp [spansFrom]
  | cons first segments ih =>
    have rest := fun start => ih start fun index content member =>
      filled index content (List.mem_cons_of_mem _ member)
    cases first with
    | text content =>
      obtain ⟨bounds, pairwise⟩ := rest (offset + content.length)
      refine ⟨fun span member => ?_, pairwise⟩
      obtain ⟨behind, filled⟩ := bounds span member
      exact ⟨Nat.le_trans (Nat.le_add_right _ _) behind, filled⟩
    | wildcard index content =>
      obtain ⟨bounds, pairwise⟩ := rest (offset + content.length)
      have positive : 0 < content.length := by
        have := mt String.length_eq_zero_iff.mp (filled index content List.mem_cons_self)
        omega
      refine ⟨?_, .cons (fun span member => (bounds span member).1) pairwise⟩
      rintro span (_ | ⟨_, member⟩)
      · exact ⟨Nat.le_refl _, Nat.lt_add_of_pos_right positive⟩
      · obtain ⟨behind, filled⟩ := bounds span member
        exact ⟨by omega, filled⟩

private theorem offset_le_offset {left right : Nat} (le : left ≤ right) :
    cell.offset left ≤ cell.offset right := by
  obtain ⟨rest, isRest⟩ := List.take_prefix_take_left (l := cell.segments) le
  rw [offset, offset, ← isRest, content_append, String.length_append]
  exact Nat.le_add_right _ _

/-- A wildcard that stands for some text begins before all segments behind it. -/
private theorem IsSplitOf.offset_lt (split : cell.IsSplitOf text) {left right : Nat}
    {content : String} (here : cell.segments[left]? = some (.wildcard index content))
    (lt : left < right) :
    cell.offset left < cell.offset right := by
  refine Nat.lt_of_lt_of_le ?_ (offset_le_offset (Nat.succ_le_of_lt lt))
  have filled := mt String.length_eq_zero_iff.mp (split.wildcard_ne (List.mem_of_getElem? here))
  simp only [offset, List.take_add_one, here, Option.toList_some, content_append, content_cons,
    content_nil, String.length_append, Segment.content]
  omega

/-- In a split of a text no two segments have the same span. -/
theorem IsSplitOf.eq_of_spanAt? (split : cell.IsSplitOf text) {left right : Nat} {span : Span}
    (isLeft : cell.spanAt? left = some span) (isRight : cell.spanAt? right = some span) :
    left = right := by
  have begins {segment : Nat} (here : cell.spanAt? segment = some span) :
      ∃ index content, cell.segments[segment]? = some (.wildcard index content) ∧
        span.start = cell.offset segment := by
    obtain ⟨found, isFound, isSpan⟩ := Option.bind_eq_some_iff.mp here
    cases found with
    | text => simp [Segment.wildcard?] at isSpan
    | wildcard index content =>
      obtain rfl := Option.some.inj isSpan
      exact ⟨index, content, isFound, rfl⟩
  obtain ⟨_, _, leftHere, leftStart⟩ := begins isLeft
  obtain ⟨_, _, rightHere, rightStart⟩ := begins isRight
  rcases Nat.lt_trichotomy left right with lt | same | gt
  · have := split.offset_lt leftHere lt
    omega
  · exact same
  · have := split.offset_lt rightHere gt
    omega

/-! ### Edits -/

/-- The spans of a cell in which one text has been split round a new wildcard. -/
private theorem exists_spans_splice (front back : List Segment) {before after : List Segment}
    (plainBefore : ∀ segment ∈ before, segment.wildcard? = none)
    (plainAfter : ∀ segment ∈ after, segment.wildcard? = none) (index : Nat)
    {inside text : String} (joined : content ⟨before⟩ ++ inside ++ content ⟨after⟩ = text) :
    let start := (content ⟨front ++ before⟩).length
    ∃ left right, spans ⟨front ++ .text text :: back⟩ = left ++ right ∧
      spans ⟨front ++ before ++ .wildcard index inside :: (after ++ back)⟩ =
        left ++ ⟨start, start + inside.length, index⟩ :: right := by
  intro start
  refine ⟨spansFrom 0 front, spansFrom ((content ⟨front⟩).length + text.length) back, ?_, ?_⟩
  · simp [spans, spansFrom_append, spansFrom]
  · simp [spans, spansFrom_append, spansFrom, spansFrom_eq_nil_of_plain plainBefore,
      spansFrom_eq_nil_of_plain plainAfter, start, ← joined, Nat.add_assoc]

/-- The span that a wildcard covers when it is put over a range of a segment. -/
def spanOver (cell : Cell) (wildcard : Nat) (range : SegmentRange) : Span :=
  let start := cell.offset range.segment
  ⟨start + range.start, start + range.stop, wildcard⟩

theorem Inserted.exists_spans {range : SegmentRange} {insertion : CellInsertion}
    (inserted : Inserted index cell range insertion) :
    ∃ left right, cell.spans = left ++ right ∧
      insertion.cell.spans = left ++ cell.spanOver index range :: right := by
  obtain ⟨front, back, before, inside, after, -⟩ := inserted
  simpa [spanOver, offset, content_textUnlessEmpty, Nat.add_assoc] using
    exists_spans_splice front back
      (fun _ => wildcard?_eq_none_of_mem_textUnlessEmpty)
      (fun _ => wildcard?_eq_none_of_mem_textUnlessEmpty) index
      (show content ⟨textUnlessEmpty before⟩ ++ inside ++ content ⟨textUnlessEmpty after⟩ =
        before ++ inside ++ after by simp only [content_textUnlessEmpty])

theorem Removed.exists_spans {removal : CellRemoval}
    (removed : Removed index cell segment removal) :
    ∃ span left right, cell.spanAt? segment = some span ∧ span.wildcard = index ∧
      cell.spans = left ++ span :: right ∧ removal.cell.spans = left ++ right := by
  obtain ⟨front, back, before, after, content, -, -⟩ := removed
  obtain ⟨left, right, spliced, spans⟩ := exists_spans_splice front back
    (fun _ => wildcard?_eq_none_of_mem_side) (fun _ => wildcard?_eq_none_of_mem_side) index
    (show Cell.content ⟨side before⟩ ++ content ++ Cell.content ⟨side after⟩ =
      before.getD "" ++ content ++ after.getD "" by simp only [content_side])
  refine ⟨_, left, right, ?_, rfl, spans, spliced⟩
  rw [← spanAt?_append_wildcard, List.length_append]

/-- In a split of a text no two spans begin at the same place. -/
private theorem IsSplitOf.nodup_starts (split : cell.IsSplitOf text) :
    (cell.spans.map Span.start).Nodup := by
  obtain ⟨bounds, pairwise⟩ := pairwise_spansFrom 0 fun index content => split.wildcard_ne
  refine List.pairwise_map.mpr (pairwise.imp_of_mem fun inLeft _ before => ?_)
  exact Nat.ne_of_lt (Nat.lt_of_lt_of_le (bounds _ inLeft).2 before)

theorem IsSplitOf.eq_of_sameStretch (split : cell.IsSplitOf text) {left right : Span}
    (isLeft : left ∈ cell.spans) (isRight : right ∈ cell.spans) (same : left.SameStretch right) :
    left = right :=
  List.inj_on_of_nodup_map split.nodup_starts isLeft isRight same.1

private theorem IsSplitOf.not_mem_of_spans_eq (split : cell.IsSplitOf text) {left right : List Span}
    {span : Span} (spans_eq : cell.spans = left ++ span :: right) : span ∉ left ++ right := by
  have nodup := List.Nodup.of_map _ split.nodup_starts
  rw [spans_eq, List.nodup_middle, List.nodup_cons] at nodup
  exact nodup.1

/-- A wildcard put into a cell adds one span, over the range that it was put over. -/
theorem Inserted.mem_spans_iff {range : SegmentRange} {insertion : CellInsertion}
    (inserted : Inserted index cell range insertion) {span : Span} :
    span ∈ insertion.cell.spans ↔ span = cell.spanOver index range ∨ span ∈ cell.spans := by
  obtain ⟨left, right, old, new⟩ := inserted.exists_spans
  rw [old, new]
  simp [or_left_comm]

theorem Inserted.spanOver_not_mem {range : SegmentRange} {insertion : CellInsertion}
    (inserted : Inserted index cell range insertion) (split : cell.IsSplitOf text) :
    cell.spanOver index range ∉ cell.spans := by
  obtain ⟨left, right, old, new⟩ := inserted.exists_spans
  rw [old]
  exact (inserted.isSplitOf split).not_mem_of_spans_eq new

/-- A wildcard taken out of a cell takes its span and leaves the others. -/
theorem Removed.exists_spanAt? {removal : CellRemoval}
    (removed : Removed index cell segment removal) (split : cell.IsSplitOf text) :
    ∃ span ∈ cell.spans, cell.spanAt? segment = some span ∧ span.wildcard = index ∧
      ∀ other, other ∈ removal.cell.spans ↔ other ∈ cell.spans ∧ other ≠ span := by
  obtain ⟨span, left, right, isSpan, label, old, new⟩ := removed.exists_spans
  refine ⟨span, by simp [old], isSpan, label, fun other => ?_⟩
  have gone := split.not_mem_of_spans_eq old
  rw [old, new]
  by_cases same : other = span
  · simpa [same] using gone
  · simp [same]

end

end Cell

end LogMotif
