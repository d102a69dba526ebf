import LogMotif.Corpus

/-! # The rows of a corpus

The index of a corpus cuts its text where its lines end, so the text of a row is the piece between
two line feeds, whatever the text is. In the corpus of a log these pieces are the written rows.
-/

namespace LogMotif

private theorem size_utf8Encode (text : List Char) : text.utf8Encode.size = byteLength text := by
  induction text with
  | nil => rfl
  | cons c text ih =>
    rw [List.utf8Encode_cons, ByteArray.size_append, ih, List.utf8Encode_singleton,
      List.size_toByteArray, String.length_utf8EncodeChar]
    rfl

theorem utf8ByteSize_eq_byteLength (text : String) : text.utf8ByteSize = byteLength text.toList := by
  rw [← size_utf8Encode, String.utf8Encode_toList]
  rfl

theorem length_le_byteLength (text : List Char) : text.length ≤ byteLength text := by
  induction text with
  | nil => exact Nat.le_refl 0
  | cons c text ih =>
    have := c.utf8Size_pos
    simp only [List.length_cons, byteLength, List.foldr_cons] at ih ⊢
    omega

theorem length_le_utf8ByteSize (text : String) : text.length ≤ text.utf8ByteSize := by
  rw [utf8ByteSize_eq_byteLength, ← String.length_toList]
  exact length_le_byteLength text.toList

theorem find?_zipIdx_eq_none_iff {α : Type} {bad : α → Bool} {list : List α} :
    (list.zipIdx.find? fun (item, _) => bad item) = none ↔ ∀ item ∈ list, bad item = false := by
  rw [List.find?_eq_none]
  constructor
  · intro none item member
    obtain ⟨i, inside, rfl⟩ := List.getElem_of_mem member
    simpa using none (list[i], i) (List.mk_mem_zipIdx_iff_getElem?.mpr (by simp))
  · rintro all ⟨item, i⟩ member
    simpa using all item (List.mem_of_getElem? (List.mk_mem_zipIdx_iff_getElem?.mp member))

private theorem find?_zipIdx_eq_some_iff {α : Type} {bad : α → Bool} {list : List α} {item : α}
    {i : Nat} :
    (list.zipIdx.find? fun (item, _) => bad item) = some (item, i) ↔
      list[i]? = some item ∧ bad item = true ∧
        ∀ j < i, ∀ earlier, list[j]? = some earlier → bad earlier = false := by
  rw [List.find?_eq_some_iff_getElem]
  constructor
  · rintro ⟨isBad, j, inside, same, before⟩
    rw [List.getElem_zipIdx, Nat.zero_add] at same
    obtain ⟨rfl, rfl⟩ := Prod.mk.inj same
    rw [List.length_zipIdx] at inside
    refine ⟨List.getElem?_eq_getElem inside, isBad, fun k earlier other there => ?_⟩
    obtain ⟨_, rfl⟩ := List.getElem?_eq_some_iff.mp there
    simpa using before k earlier
  · rintro ⟨here, isBad, before⟩
    obtain ⟨inside, rfl⟩ := List.getElem?_eq_some_iff.mp here
    refine ⟨isBad, i, by simpa using inside, by simp, fun j earlier => ?_⟩
    simpa using before j earlier _ (List.getElem?_eq_getElem (Nat.lt_trans earlier inside))

namespace Corpus

theorem checkRows_eq_ok_iff {width : Nat} {rows : List (List String)} :
    checkRows width rows = .ok () ↔ ∀ row ∈ rows, row.length = width := by
  have none_iff := @find?_zipIdx_eq_none_iff _ (·.length != width) rows
  simp only [bne_eq_false_iff_eq] at none_iff
  rw [← none_iff]
  unfold checkRows
  split
  next none => simpa using none
  next found => simp [found]

/-- The first row that does not have one cell per column. -/
structure FirstMisfit (width : Nat) (rows : List (List String)) (i : Nat) (row : List String) :
    Prop where
  here : rows[i]? = some row
  unfit : row.length ≠ width
  before : ∀ j < i, ∀ earlier, rows[j]? = some earlier → earlier.length = width

private theorem firstMisfit_iff {width i : Nat} {rows : List (List String)} {row : List String} :
    FirstMisfit width rows i row ↔
      (rows.zipIdx.find? fun (row, _) => row.length != width) = some (row, i) := by
  have some_iff := @find?_zipIdx_eq_some_iff _ (·.length != width) rows row i
  simp only [bne_iff_ne, bne_eq_false_iff_eq] at some_iff
  rw [some_iff]
  exact ⟨fun ⟨here, unfit, before⟩ => ⟨here, unfit, before⟩,
    fun ⟨here, unfit, before⟩ => ⟨here, unfit, before⟩⟩

theorem checkRows_eq_error_iff {width : Nat} {rows : List (List String)} {error : MotifError} :
    checkRows width rows = .error error ↔
      ∃ i row, FirstMisfit width rows i row ∧ error = .mismatchedRow i width row.length := by
  simp only [firstMisfit_iff]
  unfold checkRows
  split
  next none => simp [none]
  next row i found =>
    simp only [found, Option.some.injEq, Prod.mk.injEq, Except.error.injEq]
    constructor
    · rintro rfl
      exact ⟨i, row, ⟨rfl, rfl⟩, rfl⟩
    · rintro ⟨_, _, ⟨rfl, rfl⟩, rfl⟩
      rfl

end Corpus

/-! ### Rows of any text -/

theorem byteLength_append (left right : List Char) :
    byteLength (left ++ right) = byteLength left + byteLength right := by
  rw [← size_utf8Encode, List.utf8Encode_append, ByteArray.size_append, size_utf8Encode,
    size_utf8Encode]

namespace RowIndex

theorem getElem?_startsFrom (offset : Nat) (lines : List (List Char)) (row : Nat) :
    (startsFrom offset lines)[row]? =
      if row < lines.length then some (offset + byteLength (lines.take row).flatten) else none := by
  induction lines generalizing offset row with
  | nil => simp [startsFrom]
  | cons line lines ih =>
    cases row with
    | zero => simp [startsFrom, byteLength]
    | succ row =>
      rw [startsFrom, List.getElem?_cons_succ, ih]
      simp [byteLength_append, Nat.add_assoc]

theorem length_startsFrom (offset : Nat) (lines : List (List Char)) :
    (startsFrom offset lines).length = lines.length := by
  induction lines generalizing offset with
  | nil => rfl
  | cons line lines ih => rw [startsFrom, List.length_cons, ih, List.length_cons]

variable {text : String} {row : Nat}

theorem start?_ofText (inside : row < (Text.splitLines text.toList).length) :
    (ofText text).start? row =
      some (byteLength ((Text.splitLines text.toList).take row).flatten) := by
  simp [start?, ofText, getElem?_startsFrom, inside]

private theorem start?_ofText_eq_none (outside : (Text.splitLines text.toList).length ≤ row) :
    (ofText text).start? row = none := by
  simpa [start?, ofText, getElem?_startsFrom] using outside

theorem stop_ofText (text : String) (row : Nat) :
    (ofText text).stop row = byteLength ((Text.splitLines text.toList).take (row + 1)).flatten := by
  by_cases next : row + 1 < (Text.splitLines text.toList).length
  · simp [stop, ofText, getElem?_startsFrom, next]
  · rw [List.take_of_length_le (Nat.le_of_not_lt next), Text.flatten_splitLines,
      ← utf8ByteSize_eq_byteLength]
    simp [stop, ofText, getElem?_startsFrom, next]

end RowIndex

namespace Corpus

private theorem extract_middle (front middle back : ByteArray) :
    (front ++ (middle ++ back)).extract front.size (front.size + middle.size) = middle := by
  have behind := @ByteArray.extract_append_size_add front (middle ++ back) 0 middle.size
  rw [Nat.add_zero] at behind
  rw [behind, ByteArray.extract_append_eq_left rfl]

theorem fromUTF8?_utf8Encode (text : List Char) :
    String.fromUTF8? text.utf8Encode = some (String.ofList text) := by
  rw [String.fromUTF8?, dif_pos ByteArray.isValidUTF8_utf8Encode]
  rfl

theorem rowCount_eq (corpus : Corpus) :
    corpus.rowCount = (Text.splitLines corpus.text.toList).length := by
  rw [rowCount, corpus.index_eq, RowIndex.rowCount, RowIndex.ofText, List.size_toArray,
    RowIndex.length_startsFrom]

/-- The text from the start of a row to the end of another. -/
def between? (corpus : Corpus) (first last : Nat) : Option String := do
  let start ← corpus.index.start? first
  String.fromUTF8? (corpus.text.toUTF8.extract start (corpus.index.stop last))

/-- The bytes from the start of a row to the end of another are those of the pieces between two line
feeds. -/
theorem extract_pieces (text : String) {first last : Nat} (ordered : first ≤ last) :
    let pieces := Text.splitLines text.toList
    text.toUTF8.extract (byteLength (pieces.take first).flatten)
        (byteLength (pieces.take (last + 1)).flatten) =
      ((pieces.take (last + 1)).drop first).flatten.utf8Encode := by
  intro pieces
  let between := (pieces.take (last + 1)).drop first
  have front : pieces.take (last + 1) = pieces.take first ++ between := by
    rw [← List.take_append_drop first (pieces.take (last + 1)), List.take_take,
      Nat.min_eq_left (Nat.le_succ_of_le ordered)]
  have stop_eq : byteLength (pieces.take (last + 1)).flatten =
      byteLength (pieces.take first).flatten + byteLength between.flatten := by
    rw [front, List.flatten_append, byteLength_append]
  have bytes : text.toUTF8 = (pieces.take first).flatten.utf8Encode ++
      (between.flatten.utf8Encode ++ (pieces.drop (last + 1)).flatten.utf8Encode) := by
    rw [← List.utf8Encode_append, ← List.utf8Encode_append, ← List.append_assoc,
      ← List.flatten_append, ← front, ← List.flatten_append, List.take_append_drop,
      Text.flatten_splitLines, String.utf8Encode_toList]
    rfl
  rw [stop_eq, bytes, ← size_utf8Encode, ← size_utf8Encode]
  exact extract_middle _ _ _

/-- The text from one row to another is made up of the pieces of the text between two line feeds. -/
theorem between?_eq (corpus : Corpus) {first last : Nat} (ordered : first ≤ last)
    (inside : last < (Text.splitLines corpus.text.toList).length) :
    corpus.between? first last = some (String.ofList
      (((Text.splitLines corpus.text.toList).take (last + 1)).drop first).flatten) := by
  have begins := RowIndex.start?_ofText (Nat.lt_of_le_of_lt ordered inside)
  rw [between?, corpus.index_eq, begins, RowIndex.stop_ofText, Option.bind_eq_bind,
    Option.bind_some, extract_pieces corpus.text ordered, fromUTF8?_utf8Encode]

theorem drop_take_succ {α : Type} {list : List α} {i : Nat} {item : α} (here : list[i]? = some item) :
    (list.take (i + 1)).drop i = [item] := by
  obtain ⟨inside, rfl⟩ := List.getElem?_eq_some_iff.mp here
  rw [List.take_succ_eq_append_getElem inside]
  exact List.drop_left' (List.length_take_of_le (Nat.le_of_lt inside))

/-- The text of a row is the piece of the text between two line feeds. -/
theorem rowText?_eq (corpus : Corpus) (row : Nat) :
    corpus.rowText? row = ((Text.splitLines corpus.text.toList)[row]?).map String.ofList := by
  cases here : (Text.splitLines corpus.text.toList)[row]? with
  | some line =>
    have inside := (List.getElem?_eq_some_iff.mp here).1
    change corpus.between? row row = some (String.ofList line)
    rw [corpus.between?_eq (Nat.le_refl row) inside, drop_take_succ here, List.flatten_singleton]
  | none =>
    rw [rowText?, corpus.index_eq, RowIndex.start?_ofText_eq_none (List.getElem?_eq_none_iff.mp here)]
    rfl

end Corpus

end LogMotif
