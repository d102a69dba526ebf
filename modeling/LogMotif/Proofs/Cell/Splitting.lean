import LogMotif.Proofs.Cell.Edits

/-! # Cells as splits of a text

Every cell of a motif is a split of one log text: its segments join to that text, none is empty
unless the text is, and plain text is cut at wildcards only. A fresh cell is such a split, and so is
what edits make of one.
-/

namespace LogMotif

/-- Whether a wildcard stands on one side of the boundary between two segments. -/
def Segment.Borders (left right : Segment) : Prop := left.wildcard?.isSome ∨ right.wildcard?.isSome

namespace Cell

/-- Whether a cell is a split of a text, in normal form. -/
structure IsSplitOf (text : String) (cell : Cell) : Prop where
  content_eq : cell.content = text
  nonempty : cell.segments ≠ []
  bordered : cell.segments.IsChain Segment.Borders
  filled : cell.segments = [.text ""] ∨ ∀ segment ∈ cell.segments, segment.content ≠ ""

theorem isSplitOf_ofText (text : String) : (ofText text).IsSplitOf text where
  content_eq := by simp [ofText, content, Segment.content]
  nonempty := by simp [ofText]
  bordered := .singleton _
  filled := by
    by_cases empty : text = ""
    · simp [ofText, empty]
    · exact .inr (by simpa [ofText, Segment.content] using empty)

/-- A wildcard stands for a text that is not empty. -/
theorem IsSplitOf.wildcard_ne {text content : String} {cell : Cell} {index : Nat}
    (split : cell.IsSplitOf text) (member : .wildcard index content ∈ cell.segments) :
    content ≠ "" := by
  rcases split.filled with lone | filled
  · simp [lone] at member
  · exact filled _ member

theorem join_textUnlessEmpty (text : String) :
    String.join ((textUnlessEmpty text).map Segment.content) = text := by
  unfold textUnlessEmpty
  split
  next empty => simpa using (String.isEmpty_iff.mp empty).symm
  next => simp [Segment.content]

theorem content_ne_of_mem_textUnlessEmpty {text : String} {segment : Segment}
    (member : segment ∈ textUnlessEmpty text) : segment.content ≠ "" := by
  unfold textUnlessEmpty at member
  split at member
  next => simp at member
  next filled =>
    obtain rfl := List.mem_singleton.mp member
    simpa [Segment.content] using filled

theorem Inserted.content_eq {index : Nat} {cell : Cell} {range : SegmentRange}
    {insertion : CellInsertion} (inserted : Inserted index cell range insertion) :
    insertion.cell.content = cell.content := by
  obtain ⟨front, back, before, inside, after, -⟩ := inserted
  simp [content, Segment.content, join_textUnlessEmpty, String.append_assoc]

theorem join_side (text : Option String) :
    String.join ((side text).map Segment.content) = text.getD "" := by
  cases text <;> simp [side, Segment.content]

theorem Removed.content_eq {index segment : Nat} {cell : Cell} {removal : CellRemoval}
    (removed : Removed index cell segment removal) : removal.cell.content = cell.content := by
  obtain ⟨front, back, before, after, content, -, -⟩ := removed
  simp [Cell.content, Segment.content, join_side, String.append_assoc]

/-- A wildcard is only put where text is, and leaves no empty text behind. -/
theorem Inserted.isSplitOf {index : Nat} {cell : Cell} {range : SegmentRange}
    {insertion : CellInsertion} (inserted : Inserted index cell range insertion) {text : String}
    (split : cell.IsSplitOf text) : insertion.cell.IsSplitOf text := by
  refine ⟨inserted.content_eq.trans split.content_eq, ?_, ?_, .inr ?_⟩
  all_goals obtain ⟨front, back, before, inside, after, inside_ne⟩ := inserted
  · simp
  · have bordered := split.bordered
    unfold textUnlessEmpty
    split <;> split <;>
      simp_all [List.isChain_append, List.isChain_cons, Segment.Borders, Segment.wildcard?]
  · intro segment member
    have others : ∀ segment ∈ front ++ back, segment.content ≠ "" := by
      rcases split.filled with lone | filled
      · simp [List.append_eq_cons_iff, inside_ne] at lone
      · intro segment member
        refine filled segment ?_
        simp only [List.mem_append, List.mem_cons] at member ⊢
        tauto
    simp only [List.append_assoc, List.mem_append, List.mem_cons] at member others
    rcases member with inFront | inBefore | rfl | inAfter | inBack
    · exact others segment (.inl inFront)
    · exact content_ne_of_mem_textUnlessEmpty inBefore
    · exact inside_ne
    · exact content_ne_of_mem_textUnlessEmpty inAfter
    · exact others segment (.inr inBack)

theorem plainText?_eq_none_iff {segment : Option Segment} :
    plainText? segment = none ↔ ∀ found ∈ segment, found.wildcard?.isSome := by
  rcases segment with _ | _ | _ <;> simp [plainText?, Segment.wildcard?]

/-- Text that is joined again leaves no boundary between texts. -/
theorem Removed.isSplitOf {index segment : Nat} {cell : Cell} {removal : CellRemoval}
    (removed : Removed index cell segment removal) {text : String} (split : cell.IsSplitOf text) :
    removal.cell.IsSplitOf text := by
  refine ⟨removed.content_eq.trans split.content_eq, ?_, ?_, .inr ?_⟩
  all_goals obtain ⟨front, back, before, after, content, left, right⟩ := removed
  · simp
  · have bordered := split.bordered
    rw [plainText?_eq_none_iff] at left right
    cases before <;> cases after <;>
      simp_all [side, List.isChain_append, List.isChain_cons, Segment.Borders, Segment.wildcard?]
  · have filled : ∀ segment ∈ front ++ .wildcard index content :: back, segment.content ≠ "" := by
      rcases split.filled with lone | filled
      · simp [List.append_eq_cons_iff] at lone
      · intro segment member
        refine filled segment ?_
        simp only [List.mem_append, List.mem_cons] at member ⊢
        tauto
    intro segment member
    simp only [List.mem_append, List.mem_cons] at member filled
    rcases member with inFront | rfl | inBack
    · exact filled segment (.inl inFront)
    · have content_ne : content ≠ "" := filled _ (.inr (.inl rfl))
      simp [Segment.content, content_ne]
    · exact filled segment (.inr (.inr inBack))

end Cell

end LogMotif
