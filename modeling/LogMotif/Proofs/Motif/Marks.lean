import LogMotif.Proofs.Motif.Bookkeeping
import LogMotif.Proofs.Motif.Markup

/-! # The marks of a motif

Each wildcard that stands in a cell of a motif marks a span of the text of the cell. An edit of the
motif splits, joins and moves segments, moves the occurrences in the list of wildcards after them
and renumbers both; on the marks it is one of the edits of markup.
-/

namespace LogMotif

namespace Motif

/-- The marks in the cells of entries. -/
def marks (entries : List Entry) : Set Mark :=
  {mark | ∃ content, cellAt? entries mark.entry mark.cell = some content ∧
    mark.span ∈ content.spans}

variable {motif next : Motif}

theorem mem_marks_of_cellAt? {entries : List Entry} {entry cell : Nat} {content : Cell}
    (found : cellAt? entries entry cell = some content) {span : Span} :
    ⟨entry, cell, span⟩ ∈ marks entries ↔ span ∈ content.spans := by
  simp [marks, found]

theorem marks_congr {left right : List Entry}
    (same : left.map Entry.cells = right.map Entry.cells) : marks left = marks right := by
  have cellAt?_eq (entries : List Entry) (i j : Nat) :
      cellAt? entries i j = ((entries.map Entry.cells)[i]?).bind (·[j]?) := by
    rw [List.getElem?_map, cellAt?, Option.bind_map]
    rfl
  simp only [marks, cellAt?_eq, same]

/-- The labels in use are the wildcards that stand in a segment. -/
theorem mem_labels_marks_iff {entries : List Entry} {index : Nat} :
    index ∈ Mark.labels (marks entries) ↔
      ∃ occurrence, wildcardAt? entries occurrence = some index := by
  simp only [wildcardAt?_eq_bind, Option.bind_eq_some_iff]
  constructor
  · rintro ⟨⟨entry, cell, span⟩, ⟨content, found, inCell⟩, rfl⟩
    obtain ⟨segment, here⟩ := Cell.exists_span_iff.mp ⟨span, inCell, rfl⟩
    exact ⟨⟨entry, cell, segment⟩, content, found, here⟩
  · rintro ⟨⟨entry, cell, segment⟩, content, found, here⟩
    obtain ⟨span, inCell, rfl⟩ := Cell.exists_span_iff.mpr ⟨segment, here⟩
    exact ⟨⟨entry, cell, span⟩, ⟨content, found, inCell⟩, rfl⟩

/-- The labels in use are the numbers of the wildcards. -/
theorem Booked.labels_marks (booked : motif.Booked) :
    Mark.labels (marks motif.entries) = Set.Iio motif.wildcards.length := by
  ext index
  simp only [mem_labels_marks_iff, booked.listed_iff, isListed_iff, Set.mem_Iio]
  constructor
  · rintro ⟨_, _, here, -⟩
    exact (List.getElem?_eq_some_iff.mp here).1
  · intro inside
    have tidy := booked.tidy _ (List.getElem_mem inside)
    obtain ⟨occurrence, member⟩ := List.exists_mem_of_ne_nil _ tidy.occurs
    exact ⟨occurrence, _, List.getElem?_eq_getElem inside, member⟩

private theorem exists_isSplitOf {width : Nat}
    (shaped : ∀ entry ∈ motif.entries, entry.IsShaped width) {entry cell : Nat} {content : Cell}
    (found : cellAt? motif.entries entry cell = some content) :
    ∃ text, content.IsSplitOf text := by
  obtain ⟨item, isEntry, isCell⟩ := Option.bind_eq_some_iff.mp found
  obtain ⟨text, -, split⟩ := exists_of_forall₂_of_getElem?
    (shaped item (List.mem_of_getElem? isEntry)).splits isCell
  exact ⟨text, split⟩

/-- Marks at the same place are the same, where cells are splits of texts. -/
private theorem eq_of_samePlace {width : Nat}
    (shaped : ∀ entry ∈ motif.entries, entry.IsShaped width) {left right : Mark}
    (isLeft : left ∈ marks motif.entries) (isRight : right ∈ marks motif.entries)
    (same : left.SamePlace right) : left = right := by
  obtain ⟨i, j, span⟩ := left
  obtain ⟨_, _, other⟩ := right
  obtain ⟨rfl, rfl, same⟩ := same
  obtain ⟨content, found, inCell⟩ := isLeft
  rw [mem_marks_of_cellAt? found] at isRight
  obtain ⟨text, split⟩ := exists_isSplitOf shaped found
  exact congrArg (Mark.mk i j) (split.eq_of_sameStretch inCell isRight same)

/-! ### Edits of cells -/

section

variable {entry cell : Nat} {old : Cell} {text : String}

/-- The marks of a motif in which one cell has been replaced. -/
private theorem mem_marks_setCell (found : cellAt? motif.entries entry cell = some old) (new : Cell)
    {mark : Mark} : mark ∈ marks (motif.setCell entry cell new).entries ↔
      if mark.entry = entry ∧ mark.cell = cell then mark.span ∈ new.spans
      else mark ∈ marks motif.entries := by
  simp only [marks, Set.mem_ofPred_eq, cellAt?_setCell, found]
  split <;> simp

private theorem marks_setCell_insert {index : Nat} {range : SegmentRange}
    {insertion : CellInsertion} (found : cellAt? motif.entries entry cell = some old)
    (inserted : Cell.Inserted index old range insertion) :
    marks (motif.setCell entry cell insertion.cell).entries =
      insert ⟨entry, cell, old.spanOver index range⟩ (marks motif.entries) := by
  ext ⟨i, j, span⟩
  rw [mem_marks_setCell found, Set.mem_insert_iff]
  split
  next inside =>
    obtain ⟨rfl, rfl⟩ := inside
    simp [mem_marks_of_cellAt? found, inserted.mem_spans_iff]
  next outside =>
    simp only [Mark.mk.injEq, iff_or_self]
    exact fun ⟨isEntry, isCell, _⟩ => absurd ⟨isEntry, isCell⟩ outside

private theorem exists_marks_setCell_remove {segment index : Nat} {removal : CellRemoval}
    (found : cellAt? motif.entries entry cell = some old)
    (removed : Cell.Removed index old segment removal) (split : old.IsSplitOf text) :
    ∃ span, old.spanAt? segment = some span ∧ span.wildcard = index ∧
      ⟨entry, cell, span⟩ ∈ marks motif.entries ∧
      marks (motif.setCell entry cell removal.cell).entries =
        marks motif.entries \ {⟨entry, cell, span⟩} := by
  obtain ⟨span, inCell, isSpan, label, spans_iff⟩ := removed.exists_spanAt? split
  refine ⟨span, isSpan, label, (mem_marks_of_cellAt? found).mpr inCell, ?_⟩
  ext ⟨i, j, other⟩
  rw [mem_marks_setCell found, Set.mem_sdiff, Set.mem_singleton_iff]
  split
  next inside =>
    obtain ⟨rfl, rfl⟩ := inside
    simp [mem_marks_of_cellAt? found, spans_iff]
  next outside =>
    simp only [Mark.mk.injEq, iff_self_and]
    exact fun _ ⟨isEntry, isCell, _⟩ => outside ⟨isEntry, isCell⟩

end

/-! ### Edits of entries -/

theorem spansFrom_renumber (deleted : List Nat) (offset : Nat) (segments : List Segment) :
    Cell.spansFrom offset (segments.map (renumberSegment deleted)) =
      (Cell.spansFrom offset segments).map (Span.relabel (closedUp deleted)) := by
  induction segments generalizing offset with
  | nil => rfl
  | cons first segments ih =>
    cases first with
    | text content => exact ih _
    | wildcard index content => exact congrArg _ (ih _)

theorem marks_renumber (entries : List Entry) (deleted : List Nat) :
    marks (renumber entries deleted) = Mark.relabel (closedUp deleted) '' marks entries := by
  have cellAt?_eq (i j : Nat) : cellAt? (renumber entries deleted) i j =
      (cellAt? entries i j).map fun cell => ⟨cell.segments.map (renumberSegment deleted)⟩ := by
    simp only [cellAt?, renumber, List.getElem?_map, Option.map_bind, Option.bind_map,
      Function.comp_def]
  ext ⟨i, j, span⟩
  simp only [marks, Set.mem_ofPred_eq, Set.mem_image, cellAt?_eq, Option.map_eq_some_iff]
  constructor
  · rintro ⟨_, ⟨content, found, rfl⟩, inCell⟩
    rw [Cell.spans, spansFrom_renumber] at inCell
    obtain ⟨before, inSpans, rfl⟩ := List.mem_map.mp inCell
    exact ⟨⟨i, j, before⟩, ⟨content, found, inSpans⟩, rfl⟩
  · rintro ⟨⟨_, _, before⟩, ⟨content, found, inCell⟩, ⟨⟩⟩
    refine ⟨_, ⟨content, found, rfl⟩, ?_⟩
    rw [Cell.spans, spansFrom_renumber]
    exact List.mem_map_of_mem inCell

private theorem closedUp_singleton_eq_lowered (gone : Nat) : closedUp [gone] = lowered gone :=
  funext (closedUp_singleton gone)

/-- The marks that stay when an entry goes are those outside of it, moved up. -/
theorem marks_eraseIdx (entries : List Entry) (entry : Nat) :
    marks (entries.eraseIdx entry) =
      Mark.closeUp entry '' {mark ∈ marks entries | mark.entry ≠ entry} := by
  have cellAt?_eq (i j : Nat) : cellAt? (entries.eraseIdx entry) i j =
      cellAt? entries (if i < entry then i else i + 1) j := by
    unfold cellAt?
    rw [List.getElem?_eraseIdx]
    split <;> rfl
  ext ⟨i, j, span⟩
  simp only [marks, Set.mem_ofPred_eq, Set.mem_image, cellAt?_eq]
  constructor
  · rintro ⟨content, found, inCell⟩
    split at found
    next before =>
      refine ⟨⟨i, j, span⟩, ⟨⟨content, found, inCell⟩, Nat.ne_of_lt before⟩, ?_⟩
      simp only [Mark.closeUp, if_neg (Nat.lt_asymm before)]
    next behind =>
      have gone : entry < i + 1 := by omega
      refine ⟨⟨i + 1, j, span⟩, ⟨⟨content, found, inCell⟩, Nat.ne_of_gt gone⟩, ?_⟩
      simp only [Mark.closeUp, if_pos gone, Nat.add_sub_cancel]
  · rintro ⟨⟨k, _, _⟩, ⟨⟨content, found, inCell⟩, other⟩, same⟩
    obtain ⟨rfl, rfl, rfl⟩ := Mark.mk.inj same
    refine ⟨content, ?_, inCell⟩
    simp only at other found ⊢
    split
    next behind => rwa [if_neg (by omega), show k - 1 + 1 = k by omega]
    next before => rwa [if_pos (by omega)]

private theorem mem_labels_outside_iff {entries : List Entry} {entry index : Nat} :
    index ∈ Mark.labels {mark ∈ marks entries | mark.entry ≠ entry} ↔
      ∃ occurrence : Occurrence, occurrence.entry ≠ entry ∧
        wildcardAt? entries occurrence = some index := by
  rw [← Mark.labels_closeUp entry, ← marks_eraseIdx, mem_labels_marks_iff]
  simp only [wildcardAt?_eraseIdx_iff]
  constructor
  · rintro ⟨_, before, other, here, -⟩
    exact ⟨before, other, here⟩
  · rintro ⟨before, other, here⟩
    exact ⟨_, before, other, here, rfl⟩

/-- Rows that are lifted into entries bring no marks. -/
theorem marks_append_ofRows {entries added : List Entry} {roles : List ColumnRole}
    {rows : List (List String)} (lifted : added ⊆ Entry.ofRows roles rows) :
    marks (entries ++ added) = marks entries := by
  ext ⟨i, j, span⟩
  by_cases inside : i < entries.length
  · simp [marks, cellAt?, List.getElem?_append_left inside]
  · have behind : entries[i]? = none := List.getElem?_eq_none (Nat.le_of_not_lt inside)
    simp only [marks, Set.mem_ofPred_eq, cellAt?, behind, Option.bind_none, reduceCtorEq, false_and,
      exists_false, iff_false]
    rintro ⟨content, found, inCell⟩
    rw [List.getElem?_append_right (Nat.le_of_not_lt inside)] at found
    obtain ⟨entry, isEntry, isCell⟩ := Option.bind_eq_some_iff.mp found
    obtain ⟨row, -, same⟩ := Entry.exists_body_eq_of_mem_ofRows (lifted (List.mem_of_getElem? isEntry))
    have cells_eq : entry.cells = row.map Cell.ofText := congrArg Entry.cells same
    have member := List.mem_of_getElem? isCell
    rw [cells_eq] at member
    obtain ⟨text, -, rfl⟩ := List.mem_map.mp member
    simp [Cell.spans, Cell.ofText, Cell.spansFrom] at inCell

/-! ### The markup of a motif -/

/-- The source rows of a motif and the marks in its cells. -/
def markup (motif : Motif) : Markup := ⟨motif.entries.map Entry.source, marks motif.entries⟩

/-- The mark of the wildcard in a segment. -/
def markAt? (motif : Motif) (occurrence : Occurrence) : Option Mark := do
  let content ← cellAt? motif.entries occurrence.entry occurrence.cell
  let span ← content.spanAt? occurrence.segment
  return ⟨occurrence.entry, occurrence.cell, span⟩

theorem markAt?_eq_some_iff {occurrence : Occurrence} {mark : Mark} :
    motif.markAt? occurrence = some mark ↔ ∃ content span,
      cellAt? motif.entries occurrence.entry occurrence.cell = some content ∧
        content.spanAt? occurrence.segment = some span ∧
          mark = ⟨occurrence.entry, occurrence.cell, span⟩ := by
  simp only [markAt?, Option.bind_eq_bind, Option.bind_eq_some_iff, Option.pure_def,
    Option.some.injEq, exists_and_left, @eq_comm _ mark]

/-- A segment has a mark when it holds a wildcard. -/
theorem exists_markAt?_iff {occurrence : Occurrence} :
    (∃ mark, motif.markAt? occurrence = some mark) ↔
      ∃ index, wildcardAt? motif.entries occurrence = some index := by
  simp only [← Option.isSome_iff_exists, wildcardAt?_eq_bind, markAt?, Cell.spanAt?,
    Cell.wildcardAt?]
  cases cellAt? motif.entries occurrence.entry occurrence.cell with
  | none => simp
  | some content =>
    cases here : content.segments[occurrence.segment]? with
    | none => simp [here]
    | some segment => cases found : segment.wildcard? <;> simp [here, found]

/-- The marks of a motif are those of its segments. -/
theorem mem_marks_iff {mark : Mark} : mark ∈ marks motif.entries ↔
    ∃ segment, motif.markAt? ⟨mark.entry, mark.cell, segment⟩ = some mark := by
  obtain ⟨entry, cell, span⟩ := mark
  simp only [markAt?_eq_some_iff, marks, Set.mem_ofPred_eq, Cell.mem_spans_iff]
  constructor
  · rintro ⟨content, found, segment, here⟩
    exact ⟨segment, content, span, found, here, rfl⟩
  · rintro ⟨segment, content, _, found, here, ⟨⟩⟩
    exact ⟨content, found, segment, here⟩

section

variable {width : Nat}

/-- In entries that are made from rows a mark stands at one place. -/
theorem eq_of_markAt? (shaped : ∀ entry ∈ motif.entries, entry.IsShaped width)
    {left right : Occurrence} {mark : Mark} (isLeft : motif.markAt? left = some mark)
    (isRight : motif.markAt? right = some mark) : left = right := by
  obtain ⟨i, j, segment⟩ := left
  obtain ⟨content, span, found, here, rfl⟩ := markAt?_eq_some_iff.mp isLeft
  obtain ⟨k, l, place⟩ := right
  obtain ⟨other, _, again, there, same⟩ := markAt?_eq_some_iff.mp isRight
  obtain ⟨rfl, rfl, rfl⟩ := Mark.mk.inj same
  obtain rfl := Option.some.inj (found.symm.trans again)
  obtain ⟨text, split⟩ := exists_isSplitOf shaped found
  exact congrArg (Occurrence.mk i j) (split.eq_of_spanAt? here there)

private theorem map_source_of_reshaped {old new : List Entry}
    (reshaped : List.Forall₂ Entry.Reshaped old new) :
    new.map Entry.source = old.map Entry.source :=
  map_eq_of_forall₂ (fun _ _ here => here.source_eq) reshaped

theorem functional_markup (shaped : ∀ entry ∈ motif.entries, entry.IsShaped width) :
    motif.markup.Functional :=
  fun _ isLeft _ isRight same => eq_of_samePlace shaped isLeft isRight same

theorem exists_gains_of_insertWildcard (shaped : ∀ entry ∈ motif.entries, entry.IsShaped width)
    {index : Nat} {selection : Selection}
    {record : List Wildcard → Occurrence → Except MotifError (List Wildcard)}
    (edited : motif.insertWildcard index selection record = .ok (some next)) :
    ∃ content, cellAt? motif.entries selection.entry selection.cell = some content ∧
      motif.markup.Gains ⟨selection.entry, selection.cell, content.spanOver index selection.range⟩
        next.markup := by
  have reshaped := reshaped_insertWildcard edited
  obtain ⟨content, insertion, wildcards, found, inserted, -, rfl⟩ :=
    insertWildcard_eq_ok_some_iff.mp edited
  obtain ⟨text, split⟩ := exists_isSplitOf shaped found
  refine ⟨content, found, ?_, ?_⟩
  · exact fun member => inserted.spanOver_not_mem split ((mem_marks_of_cellAt? found).mp member)
  · simp only [markup, Markup.mk.injEq]
    exact ⟨map_source_of_reshaped reshaped, marks_setCell_insert found inserted⟩

theorem exists_gains_of_useWildcard (shaped : ∀ entry ∈ motif.entries, entry.IsShaped width)
    {index : Nat} {selection : Selection}
    (used : motif.useWildcard index selection = .ok (some next)) :
    ∃ content, cellAt? motif.entries selection.entry selection.cell = some content ∧
      motif.markup.Gains ⟨selection.entry, selection.cell, content.spanOver index selection.range⟩
        next.markup := by
  unfold useWildcard at used
  split at used
  next => exact exists_gains_of_insertWildcard shaped used
  next => simp at used

/-- A wildcard goes with its last occurrence. -/
private theorem Booked.deleted_iff (booked : motif.Booked) {index : Nat} {struck : Occurrence}
    {update : OccurrenceRemoval}
    (removed : removeOccurrence motif.wildcards index struck = .ok update) :
    update.deleted ↔
      ∀ occurrence, wildcardAt? motif.entries occurrence = some index → occurrence = struck := by
  obtain ⟨wildcard, here, member, rfl⟩ := removeOccurrence_eq_ok_iff.mp removed
  have nodup := (booked.tidy wildcard (List.mem_of_getElem? here)).nodup
  have listed (occurrence : Occurrence) : wildcardAt? motif.entries occurrence = some index ↔
      occurrence ∈ wildcard.occurrences := by
    rw [booked.listed_iff, isListed_iff]
    simp [here]
  simp only [listed]
  have last : wildcard.occurrences.erase struck = [] ↔
      ∀ occurrence ∈ wildcard.occurrences, occurrence = struck := by
    simp only [List.eq_nil_iff_forall_not_mem, nodup.mem_erase_iff]
    exact forall_congr' fun occurrence => by tauto
  rw [← last]
  split <;> simp_all

theorem Booked.exists_loses_of_removeWildcard (booked : motif.Booked)
    (shaped : ∀ entry ∈ motif.entries, entry.IsShaped width) {entry cell segment : Nat}
    (edited : motif.removeWildcard entry cell segment = .ok (some next)) :
    ∃ mark, motif.markAt? ⟨entry, cell, segment⟩ = some mark ∧
      motif.markup.Loses mark next.markup := by
  have reshaped := reshaped_removeWildcard edited
  obtain ⟨content, index, removal, update, found, removed, struck, rfl⟩ :=
    removeWildcard_eq_ok_some_iff.mp edited
  obtain ⟨text, split⟩ := exists_isSplitOf shaped found
  obtain ⟨span, isSpan, rfl, member, left⟩ := exists_marks_setCell_remove found removed split
  have inUse : span.wildcard ∈ Mark.labels (marks motif.entries \ {⟨entry, cell, span⟩}) ↔
      ¬ update.deleted := by
    rw [← left, mem_labels_marks_iff, booked.deleted_iff struck]
    simp only [wildcardAt?_setCell_remove found removed]
    constructor
    · rintro ⟨_, before, other, here, -⟩ only
      exact other (only before here)
    · intro again
      obtain ⟨before, there⟩ := not_forall.mp again
      obtain ⟨here, other⟩ := Classical.not_imp.mp there
      exact ⟨_, before, other, here, rfl⟩
  refine ⟨⟨entry, cell, span⟩, by simp [markAt?, found, isSpan], member,
    map_source_of_reshaped reshaped, ?_, ?_⟩
  · intro used
    have kept := inUse.mp used
    simp only [markup]
    rw [if_neg kept, left]
  · intro last
    have deleted := not_not.mp (mt inUse.mpr last)
    simp only [markup]
    rw [if_pos deleted, marks_renumber, left, closedUp_singleton_eq_lowered]

/-- There is nothing to take out of a segment only where it holds no wildcard. -/
theorem markAt?_eq_none_of_removeWildcard {entry cell segment : Nat}
    (idle : motif.removeWildcard entry cell segment = .ok none) :
    motif.markAt? ⟨entry, cell, segment⟩ = none := by
  unfold removeWildcard at idle
  cases got : motif.getCell entry cell with
  | error error => simp [got, bind, Except.bind] at idle
  | ok content =>
    have found := getCell_eq_ok_iff.mp got
    simp only [got, bind, Except.bind] at idle
    rcases here : content.segments[segment]? with _ | _ | ⟨index, text⟩
    · simp [markAt?, found, Cell.spanAt?, here]
    · simp [markAt?, found, Cell.spanAt?, here, Segment.wildcard?]
    · cases struck : removeOccurrence motif.wildcards index ⟨entry, cell, segment⟩ <;>
        simp [here, Cell.remove?, Segment.wildcard?, struck, pure, Except.pure] at idle

/-- An entry takes its marks along; those that stay move up with their entries. -/
theorem Booked.losesEntry_of_removeEntry (booked : motif.Booked) {entry : Nat}
    (removed : motif.removeEntry entry = .ok (.remaining next)) :
    motif.markup.LosesEntry entry next.markup := by
  have bookedNext := booked.removeEntry removed
  obtain ⟨-, -, rfl⟩ := removeEntry_eq_ok_remaining_iff.mp removed
  let rename := closedUp (clearEntry motif.wildcards entry).deleted
  let rest := {mark ∈ marks motif.entries | mark.entry ≠ entry}
  have marks_eq : marks (Entry.unlinkLast (renumber (motif.entries.eraseIdx entry)
      (clearEntry motif.wildcards entry).deleted)) =
        Mark.relabel rename '' (Mark.closeUp entry '' rest) := by
    rw [marks_congr (Entry.map_cells_of_map_body (Entry.map_body_unlinkLast _)), marks_renumber,
      marks_eraseIdx]
  have ordered : StrictMonoOn rename (Mark.labels rest) := by
    intro old isOld later isLater lt
    obtain ⟨before, other, here⟩ := mem_labels_outside_iff.mp isOld
    obtain ⟨_, -, there⟩ := mem_labels_outside_iff.mp isLater
    obtain ⟨_, isLater, -⟩ := isListed_iff.mp (booked.listed_iff.mp there)
    exact closedUp_clearEntry_lt (booked.listed_iff.mp here) other lt
      (Nat.le_of_lt (List.getElem?_eq_some_iff.mp isLater).1)
  have renumbers : Renumbers (Mark.labels rest) rename := by
    refine ⟨ordered, (clearEntry motif.wildcards entry).wildcards.length, ?_⟩
    rw [← bookedNext.labels_marks, marks_eq, Mark.labels_relabel, Mark.labels_closeUp]
  refine ⟨rename, renumbers, fun _ => renumbers.eqOn, ?_⟩
  have sources_eq : (Entry.unlinkLast (renumber (motif.entries.eraseIdx entry)
      (clearEntry motif.wildcards entry).deleted)).map Entry.source =
        (motif.entries.map Entry.source).eraseIdx entry := by
    rw [Entry.map_source_of_map_body (Entry.map_body_unlinkLast _),
      map_source_of_reshaped (reshaped_renumber _ _), List.eraseIdx_map]
  rw [markup, sources_eq, marks_eq, Set.image_image]
  rfl

/-- Rows that are appended bring their texts, without marks. -/
theorem exists_markup_appendRows (motif : Motif) (roles : List ColumnRole)
    (rows : List (List String)) : ∃ added : List (List String), added.Sublist rows ∧
      (motif.appendRows roles rows).markup =
        ⟨motif.markup.sources ++ added, motif.markup.marks⟩ := by
  obtain ⟨added, sublist, same⟩ :=
    Entry.exists_map_body_appendAll motif.entries (Entry.ofRows roles rows)
  refine ⟨added.map Entry.source, ?_, ?_⟩
  · simpa only [Entry.map_source_ofRows] using sublist.map Entry.source
  · have marks_eq := (marks_congr (Entry.map_cells_of_map_body same)).trans
      (marks_append_ofRows sublist.subset)
    have sources_eq := Entry.map_source_of_map_body same
    rw [List.map_append] at sources_eq
    exact congrArg₂ Markup.mk sources_eq marks_eq

/-- An edit of an entry that leaves its cells alone leaves the markup alone. -/
theorem markup_modifyEntry (motif : Motif) (entry : Nat) {change : Entry → Entry}
    (source : ∀ found, (change found).source = found.source)
    (cells : ∀ found, (change found).cells = found.cells) :
    (motif.modifyEntry entry change).markup = motif.markup :=
  congrArg₂ Markup.mk (Entry.map_modify source _ _) (marks_congr (Entry.map_modify cells _ _))

end

end Motif

end LogMotif
