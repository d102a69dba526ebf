import LogMotif.Proofs.Corpus.Lines

/-! # The row index cuts any text into lines

Whatever a text is, the slices between the starts and the ends of its rows follow each other, none
of them is empty, and together they are the text. They begin and end where characters do, and the
only line feed of a slice is its last character.
-/

namespace LogMotif

namespace Text

/-- A piece of a text ends with its only line feed, or has none and is the last one. -/
private theorem exists_content_of_splitLines {text line : List Char} {row : Nat}
    (here : (splitLines text)[row]? = some line) : ∃ content, '\n' ∉ content ∧
      (line = content ++ ['\n'] ∨
        line = content ∧ content ≠ [] ∧ row + 1 = (splitLines text).length) := by
  induction text generalizing row line with
  | nil => cases here
  | cons c text ih =>
    have pieces : splitLines (c :: text) = consChar c (splitLines text) := rfl
    rw [pieces] at here ⊢
    unfold consChar at here ⊢
    by_cases feed : c = '\n'
    · rw [if_pos feed] at here ⊢
      cases row with
      | zero =>
        obtain rfl := Option.some.inj here
        exact ⟨[], by simp, .inl (by rw [feed]; rfl)⟩
      | succ row =>
        obtain ⟨content, plain, ends⟩ := ih here
        exact ⟨content, plain, ends.imp_right fun ⟨same, filled, last⟩ =>
          ⟨same, filled, congrArg (· + 1) last⟩⟩
    · rw [if_neg feed] at here ⊢
      have front {content : List Char} (plain : '\n' ∉ content) : '\n' ∉ c :: content :=
        List.not_mem_cons_of_ne_of_not_mem (Ne.symm feed) plain
      cases rest : splitLines text with
      | nil =>
        rw [rest] at here
        obtain ⟨rfl, rfl⟩ : row = 0 ∧ line = [c] := by
          cases row with
          | zero => exact ⟨rfl, (Option.some.inj here).symm⟩
          | succ row => cases here
        exact ⟨[c], front (by simp), .inr ⟨rfl, by simp, rfl⟩⟩
      | cons first lines =>
        rw [rest] at here ih
        cases row with
        | zero =>
          obtain rfl := Option.some.inj here
          obtain ⟨content, plain, ends⟩ := @ih first 0 rfl
          refine ⟨c :: content, front plain, ends.imp ?_ ?_⟩
          · rintro rfl
            rfl
          · rintro ⟨rfl, -, last⟩
            exact ⟨rfl, by simp, last⟩
        | succ row => exact @ih line (row + 1) here

private theorem ne_nil_of_splitLines {text line : List Char} {row : Nat}
    (here : (splitLines text)[row]? = some line) : line ≠ [] := by
  obtain ⟨content, -, rfl | ⟨rfl, filled, -⟩⟩ := exists_content_of_splitLines here
  · simp
  · exact filled

end Text

namespace Corpus

/-- Whether the rows of a corpus are the given pieces of its text. -/
structure Partition (corpus : Corpus) (pieces : List String) : Prop where
  join_eq : String.join pieces = corpus.text
  rowCount_eq : corpus.index.rowCount = pieces.length
  start?_zero : 0 < corpus.index.rowCount → corpus.index.start? 0 = some 0
  start?_succ : ∀ row, row + 1 < corpus.index.rowCount →
    corpus.index.start? (row + 1) = some (corpus.index.stop row)
  stop_last : ∀ row, row + 1 = corpus.index.rowCount →
    corpus.index.stop row = corpus.text.utf8ByteSize
  /-- A row has bytes, which are those of its piece, and begins and ends where characters do. -/
  slice : ∀ row piece, pieces[row]? = some piece → ∃ start,
    corpus.index.start? row = some start ∧ start < corpus.index.stop row ∧
    corpus.text.toUTF8.extract start (corpus.index.stop row) = piece.toUTF8 ∧
    String.Pos.Raw.IsValid corpus.text ⟨start⟩ ∧
    String.Pos.Raw.IsValid corpus.text ⟨corpus.index.stop row⟩
  /-- The line of a row is its piece up to the line feed, which only the last piece may lack. -/
  line : ∀ row piece, pieces[row]? = some piece → ∃ line,
    corpus.line? row = some line ∧ '\n' ∉ line.toList ∧
    (piece = line ++ "\n" ∨ piece = line ∧ row + 1 = corpus.index.rowCount)
  line?_eq_none : ∀ row, corpus.index.rowCount ≤ row → corpus.line? row = none

/-- The pieces that the line feeds of a text cut it into. -/
def pieces (text : String) : List String := (Text.splitLines text.toList).map String.ofList

variable {text : String} {row : Nat}

private theorem getElem?_pieces {piece : String} (here : (pieces text)[row]? = some piece) :
    ∃ line, (Text.splitLines text.toList)[row]? = some line ∧ String.ofList line = piece := by
  rwa [pieces, List.getElem?_map, Option.map_eq_some_iff] at here

theorem rowCount_ofText (text : String) :
    (ofText text).index.rowCount = (Text.splitLines text.toList).length :=
  (ofText text).rowCount_eq

/-- The pieces in front of a row end where a character does. -/
private theorem isValid_take (text : String) (row : Nat) :
    String.Pos.Raw.IsValid text
      ⟨byteLength ((Text.splitLines text.toList).take row).flatten⟩ := by
  let lines := Text.splitLines text.toList
  refine String.Pos.Raw.isValid_iff_exists_append.mpr
    ⟨String.ofList (lines.take row).flatten, String.ofList (lines.drop row).flatten, ?_, ?_⟩
  · rw [← String.ofList_append, ← List.flatten_append, List.take_append_drop,
      Text.flatten_splitLines, String.ofList_toList]
  · rw [String.rawEndPos, utf8ByteSize_eq_byteLength, String.toList_ofList]

/-- The bytes of a row are those of its piece. -/
private theorem extract_row {line : List Char}
    (here : (Text.splitLines text.toList)[row]? = some line) :
    text.toUTF8.extract (byteLength ((Text.splitLines text.toList).take row).flatten)
      ((ofText text).index.stop row) = (String.ofList line).toUTF8 := by
  refine (congrArg _ (RowIndex.stop_ofText text row)).trans ?_
  rw [extract_pieces text (Nat.le_refl row), drop_take_succ here, List.flatten_singleton]
  rfl

/-- A row ends behind its start. -/
private theorem start_lt_stop {line : List Char}
    (here : (Text.splitLines text.toList)[row]? = some line) :
    byteLength ((Text.splitLines text.toList).take row).flatten < (ofText text).index.stop row := by
  have filled := List.length_pos_iff.mpr (Text.ne_nil_of_splitLines here)
  have bytes := length_le_byteLength line
  refine Nat.lt_of_lt_of_eq ?_ (RowIndex.stop_ofText text row).symm
  rw [List.take_add_one, here, List.flatten_append, byteLength_append, Option.toList_some,
    List.flatten_singleton]
  omega

/-- The line of a row is its piece up to the line feed, if it has one. -/
private theorem exists_line_ofText {line : List Char}
    (here : (Text.splitLines text.toList)[row]? = some line) : ∃ content,
    (ofText text).line? row = some content ∧ '\n' ∉ content.toList ∧
      (String.ofList line = content ++ "\n" ∨
        String.ofList line = content ∧ row + 1 = (ofText text).index.rowCount) := by
  have isLine : (ofText text).line? row = some (String.ofList (Text.dropLineFeed line)) := by
    rw [line?, rowText?_eq]
    simp [ofText, here]
  obtain ⟨content, plain, rfl | ⟨rfl, -, last⟩⟩ := Text.exists_content_of_splitLines here
  · rw [Text.dropLineFeed_append] at isLine
    exact ⟨_, isLine, by rwa [String.toList_ofList], .inl String.ofList_append⟩
  · rw [Text.dropLineFeed, if_neg fun isLast => plain (List.mem_of_getLast? isLast)] at isLine
    exact ⟨_, isLine, by rwa [String.toList_ofList], .inr ⟨rfl, by rwa [rowCount_ofText]⟩⟩

/-- The rows of any text are the pieces that its line feeds cut it into. -/
theorem ofText_partition (text : String) : (ofText text).Partition (pieces text) where
  join_eq := by
    have whole := Text.flatten_splitLines text.toList
    rw [← String.toList_inj, String.toList_join, pieces, List.flatMap_map]
    simpa [ofText] using whole
  rowCount_eq := by rw [rowCount_ofText, pieces, List.length_map]
  start?_zero filled := RowIndex.start?_ofText (rowCount_ofText text ▸ filled)
  start?_succ row inside := by
    rw [rowCount_ofText] at inside
    exact (RowIndex.start?_ofText inside).trans (congrArg some (RowIndex.stop_ofText text row).symm)
  stop_last row last := by
    rw [rowCount_ofText] at last
    refine (RowIndex.stop_ofText text row).trans ?_
    rw [List.take_of_length_le (Nat.le_of_eq last.symm), Text.flatten_splitLines]
    exact (utf8ByteSize_eq_byteLength text).symm
  slice row piece here := by
    obtain ⟨line, isLine, rfl⟩ := getElem?_pieces here
    have stop_eq := RowIndex.stop_ofText text row
    refine ⟨_, RowIndex.start?_ofText (List.getElem?_eq_some_iff.mp isLine).1,
      start_lt_stop isLine, extract_row isLine, isValid_take text row, ?_⟩
    exact stop_eq ▸ isValid_take text (row + 1)
  line row piece here := by
    obtain ⟨line, isLine, rfl⟩ := getElem?_pieces here
    exact exists_line_ofText isLine
  line?_eq_none row outside := by
    rw [rowCount_ofText] at outside
    rw [line?, rowText?_eq]
    exact congrArg (Option.map _) (congrArg (Option.map _) (List.getElem?_eq_none outside))

-- the first character takes two bytes, the second row is empty and the last one is not terminated
example : (RowIndex.ofText "é\n\nb").starts.toList = [0, 3, 4] ∧
    pieces "é\n\nb" = ["é\n", "\n", "b"] := by decide

end Corpus

end LogMotif
