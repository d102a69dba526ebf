import LogMotif.Proofs.Corpus.Lines
import LogMotif.Proofs.Query.Spelling

/-! # Entries and the rows they spell

The template of an entry spells the line of a row exactly when each cell that takes part in matching
spells what the text in its column is written as. Cells do not reach into each other: string content
holds no quote, so the string of a cell ends where that of the row does.
-/

namespace LogMotif

open LineItem (IsContent IsStretch)
open TemplateItem (Spells)

/-- Whether a template spells the line of a row, with a stretch for each of its wildcards. -/
def TemplateItem.SpellRow (corpus : Corpus) (value : Nat → String) (items : List TemplateItem)
    (row : Nat) : Prop :=
  (∀ index, .wildcard index ∈ items → IsStretch (value index).toList) ∧
    ∃ line, corpus.line? row = some line ∧ Spells value items line.toList

/-- Only the texts of the wildcards in a template matter for the rows that it spells. -/
theorem TemplateItem.SpellRow.congr {corpus : Corpus} {value other : Nat → String}
    {items : List TemplateItem} {row : Nat} (spelled : SpellRow corpus value items row)
    (same : ∀ index, .wildcard index ∈ items → value index = other index) :
    SpellRow corpus other items row := by
  obtain ⟨stretches, line, isLine, spells⟩ := spelled
  refine ⟨fun index member => ?_, line, isLine, spells.congr same⟩
  rw [← same index member]
  exact stretches index member

/-! ### Cells -/

/-- What a segment stands for on a line, where `value` gives the text of each wildcard there. -/
def Segment.spelled (value : Nat → String) : Segment → List Char
  | text content => Json.escape content.toList
  | wildcard index _ => (value index).toList

/-- What a segment stands for in a cell, where `assigned` gives the text of each wildcard. -/
def Segment.filled (assigned : Nat → String) : Segment → String
  | text content => content
  | wildcard index _ => assigned index

namespace Cell

/-- What a cell stands for on a line. -/
def spelled (value : Nat → String) (cell : Cell) : List Char :=
  cell.segments.flatMap (Segment.spelled value)

/-- The text of a cell whose wildcards have been filled in. -/
def filled (assigned : Nat → String) (cell : Cell) : String :=
  String.join (cell.segments.map (Segment.filled assigned))

/-- Whether a wildcard stands in a cell. -/
def Holds (cell : Cell) (index : Nat) : Prop := ∃ content, .wildcard index content ∈ cell.segments

/-- Wildcards filled in with some texts are spelled as these texts are written. -/
theorem spelled_eq_escape_filled {value assigned : Nat → String} {cell : Cell}
    (written : ∀ index, cell.Holds index → value index = Json.escapeText (assigned index)) :
    cell.spelled value = Json.escape (cell.filled assigned).toList := by
  obtain ⟨segments⟩ := cell
  induction segments with
  | nil => rfl
  | cons segment segments ih =>
    have behind := ih fun index ⟨content, member⟩ =>
      written index ⟨content, List.mem_cons_of_mem segment member⟩
    simp only [spelled, filled, List.flatMap_cons, List.map_cons, String.join_cons,
      String.toList_append, Json.escape_append] at behind ⊢
    rw [behind]
    congr 1
    cases segment with
    | text content => rfl
    | wildcard index content =>
      have here := written index ⟨content, List.mem_cons_self⟩
      rw [Segment.spelled, here, Json.escapeText, String.toList_ofList]
      rfl

/-- A cell whose wildcards are filled in with the texts they replaced is the text it splits. -/
theorem filled_eq_content {assigned : Nat → String} {cell : Cell}
    (replaced : ∀ index content, .wildcard index content ∈ cell.segments →
      assigned index = content) :
    cell.filled assigned = cell.content := by
  refine congrArg String.join (List.map_congr_left fun segment member => ?_)
  cases segment with
  | text content => rfl
  | wildcard index content => exact replaced index content member

theorem isContent_spelled {value : Nat → String} (contents : ∀ index, IsContent (value index).toList)
    (cell : Cell) : IsContent (cell.spelled value) := by
  obtain ⟨segments⟩ := cell
  induction segments with
  | nil => exact .nil
  | cons segment segments ih =>
    refine IsContent.append ?_ ih
    cases segment with
    | text content => exact Json.isContent_escape content.toList
    | wildcard index content => exact contents index

/-- Whether a cell stands for some content of a string: a selected one for what its segments stand
for, any other one for whatever there is. -/
def StandsFor (value : Nat → String) (selected : Bool) (cell : Cell) (content : List Char) : Prop :=
  if selected then content = cell.spelled value else IsContent content

theorem StandsFor.isContent {value : Nat → String}
    (contents : ∀ index, IsContent (value index).toList) {selected : Bool} {cell : Cell}
    {content : List Char} (stands : cell.StandsFor value selected content) : IsContent content := by
  cases selected with
  | true =>
    obtain rfl : content = cell.spelled value := stands
    exact cell.isContent_spelled contents
  | false => exact stands

/-- What a wildcard in a cell stands for is cut out of what the cell stands for, between units of
string content. -/
private theorem Holds.exists_spelled_eq_append {value : Nat → String}
    (contents : ∀ index, IsContent (value index).toList) {cell : Cell} {index : Nat}
    (holds : cell.Holds index) :
    ∃ left right, IsContent left ∧ cell.spelled value = left ++ ((value index).toList ++ right) := by
  obtain ⟨segments⟩ := cell
  obtain ⟨content, member⟩ := holds
  obtain ⟨front, back, rfl⟩ := List.append_of_mem member
  refine ⟨spelled value ⟨front⟩, spelled value ⟨back⟩, isContent_spelled contents ⟨front⟩, ?_⟩
  simp [spelled, Segment.spelled]

/-- A wildcard in a cell that stands for a text stands for a part of that text, if the characters of
the text are each written as one unit. -/
theorem Holds.exists_word {value : Nat → String} (contents : ∀ index, IsContent (value index).toList)
    {cell : Cell} {index : Nat} (holds : cell.Holds index) {text : String}
    (units : ∀ c ∈ text.toList, ¬ Json.WrittenInHex c)
    (spelled : Json.escape text.toList = cell.spelled value) (filled : value index ≠ "") :
    ∃ word, word ≠ "" ∧ value index = Json.escapeText word := by
  obtain ⟨left, right, content, cut⟩ := holds.exists_spelled_eq_append contents
  obtain ⟨front, more, text_eq, -, isMore⟩ :=
    Json.exists_escape_of_append units content (spelled.trans cut)
  have unitsMore : ∀ c ∈ more, ¬ Json.WrittenInHex c := fun c member =>
    units c (by rw [text_eq]; exact List.mem_append_right front member)
  obtain ⟨word, back, -, isWord, -⟩ :=
    Json.exists_escape_of_append unitsMore (contents index) isMore
  have value_eq : value index = Json.escapeText (String.ofList word) := by
    rw [Json.escapeText, String.toList_ofList, isWord, String.ofList_toList]
  refine ⟨String.ofList word, fun empty => filled ?_, value_eq⟩
  rw [value_eq, empty]
  rfl

end Cell

/-! ### Lines -/

namespace TemplateItem

variable {value : Nat → String}

theorem spells_cons_iff {item : TemplateItem} {items : List TemplateItem} {text : List Char} :
    Spells value (item :: items) text ↔
      ∃ left right, text = left ++ right ∧ item.Takes value left ∧ Spells value items right := by
  constructor
  · rintro ⟨⟩
    exact ⟨_, _, rfl, ‹_›, ‹_›⟩
  · rintro ⟨left, right, rfl, takes, spells⟩
    exact .cons takes spells

theorem spells_literal_cons_iff {content : String} {items : List TemplateItem} {text : List Char} :
    Spells value (literal content :: items) (content.toList ++ text) ↔ Spells value items text := by
  rw [spells_cons_iff]
  constructor
  · rintro ⟨left, right, same, rfl, spells⟩
    rwa [List.append_cancel_left same]
  · exact fun spells => ⟨_, _, rfl, rfl, spells⟩

private theorem takes_ofSegment_iff {segment : Segment} {text : List Char} :
    (ofSegment segment).Takes value text ↔ text = segment.spelled value := by
  cases segment with
  | text content => simp [ofSegment, Takes, Segment.spelled, Json.escapeText]
  | wildcard index content => rfl

/-- The templates of segments spell what the segments stand for, and no other text. -/
private theorem spells_segments_append_iff {segments : List Segment} {items : List TemplateItem}
    {text : List Char} :
    Spells value (segments.map ofSegment ++ items) text ↔ ∃ rest,
      text = segments.flatMap (Segment.spelled value) ++ rest ∧ Spells value items rest := by
  induction segments generalizing text with
  | nil => simp
  | cons segment segments ih =>
    simp only [List.map_cons, List.cons_append, spells_cons_iff, takes_ofSegment_iff, ih,
      List.flatMap_cons, List.append_assoc]
    constructor
    · rintro ⟨_, _, rfl, rfl, rest, rfl, spells⟩
      exact ⟨rest, rfl, spells⟩
    · rintro ⟨rest, rfl, spells⟩
      exact ⟨_, _, rfl, rfl, rest, rfl, spells⟩

/-- The string of a cell in front of what follows it: what the cell stands for, or any content. -/
theorem spells_ofCell_iff {selected : Bool} {cell : Cell} {items : List TemplateItem}
    {text : List Char} :
    Spells value (ofCell selected cell ++ items) text ↔ ∃ content rest,
      cell.StandsFor value selected content ∧ text = '"' :: (content ++ '"' :: rest) ∧
        Spells value items rest := by
  cases selected with
  | true =>
    have items_eq : ofCell true cell ++ items =
        literal "\"" :: (cell.segments.map ofSegment ++ literal "\"" :: items) := by
      simp [ofCell]
    rw [items_eq, spells_cons_iff]
    simp only [spells_segments_append_iff, Cell.StandsFor, if_true]
    constructor
    · rintro ⟨_, _, rfl, rfl, _, rfl, closed⟩
      obtain ⟨_, right, rfl, rfl, spells⟩ := spells_cons_iff.mp closed
      exact ⟨_, right, rfl, rfl, spells⟩
    · rintro ⟨_, rest, rfl, rfl, spells⟩
      have closed : Spells value (literal "\"" :: items) ('"' :: rest) :=
        spells_literal_cons_iff.mpr spells
      exact ⟨['"'], _, rfl, rfl, '"' :: rest, rfl, closed⟩
  | false =>
    have items_eq : ofCell false cell ++ items = anyString :: items := rfl
    rw [items_eq, spells_cons_iff]
    simp only [Cell.StandsFor, Bool.false_eq_true, if_false]
    constructor
    · rintro ⟨_, rest, rfl, ⟨content, isContent, rfl⟩, spells⟩
      exact ⟨content, rest, isContent, by simp, spells⟩
    · rintro ⟨content, rest, isContent, rfl, spells⟩
      exact ⟨'"' :: (content ++ ['"']), rest, by simp, ⟨content, isContent, rfl⟩, spells⟩

/-- The string of a cell in front of what follows it, on a line where some string stands. -/
theorem spells_ofCell_append_iff {selected : Bool} {cell : Cell} {items : List TemplateItem}
    {written rest : List Char} (isContent : IsContent written)
    (contents : ∀ index, IsContent (value index).toList) :
    Spells value (ofCell selected cell ++ items) ('"' :: (written ++ '"' :: rest)) ↔
      (selected → written = cell.spelled value) ∧ Spells value items rest := by
  rw [spells_ofCell_iff]
  have standsFor_iff : cell.StandsFor value selected written ↔
      (selected → written = cell.spelled value) := by
    cases selected <;> simp [Cell.StandsFor, isContent]
  rw [← standsFor_iff]
  constructor
  · rintro ⟨content, left, stands, same, spells⟩
    obtain ⟨rfl, rfl⟩ := isContent.eq_of_append_quote (stands.isContent contents)
      (List.cons.inj same).2
    exact ⟨stands, spells⟩
  · exact fun ⟨stands, spells⟩ => ⟨written, rest, stands, rfl, spells⟩

/-- A column with the cell of an entry and whether it is selected there, and with the text of a row.
-/
abbrev FacedColumn := Header × ColumnRole × (Cell × Bool) × String

/-- Whether a cell that takes part in matching stands for what its text is written as. -/
def FacedColumn.Spelled (value : Nat → String) : FacedColumn → Prop
  | (_, role, (cell, selected), text) =>
    role.inCorpus → selected → Json.escape text.toList = cell.spelled value

/-- The members of an entry in front of what follows them, on a line with the members of a row. -/
private theorem spells_ofMembers_append_iff (contents : ∀ index, IsContent (value index).toList)
    {columns : List FacedColumn} {isFirst : Bool} {items : List TemplateItem} {rest : List Char} :
    Spells value (ofMembers isFirst (columns.map (.map id (.map id Prod.fst))) ++ items)
        (Corpus.memberChars isFirst (columns.map (.map id (.map id Prod.snd))) ++ rest) ↔
      (∀ column ∈ columns, column.Spelled value) ∧ Spells value items rest := by
  induction columns generalizing isFirst with
  | nil => simp [ofMembers, Corpus.memberChars]
  | cons column columns ih =>
    obtain ⟨header, role, ⟨cell, selected⟩, text⟩ := column
    have here : FacedColumn.Spelled value (header, role, (cell, selected), text) ↔
      (role.inCorpus → selected → Json.escape text.toList = cell.spelled value) := Iff.rfl
    simp only [List.map_cons, Prod.map, id_eq, ofMembers, Corpus.memberChars,
      List.forall_mem_cons, here]
    by_cases written : role.inCorpus
    · have line_eq : ∀ more : List Char, (if isFirst then [] else [',']) ++
          (Json.quote header.name).toList ++ ':' :: ((Json.quote text).toList ++ more) ++ rest =
            ((if isFirst then "" else ",") ++ Json.quote header.name ++ ":").toList ++
              '"' :: (Json.escape text.toList ++ '"' :: (more ++ rest)) := by
        intro more
        cases isFirst <;> simp [Json.toList_quote]
      rw [if_pos written, if_pos written, line_eq, List.cons_append, spells_literal_cons_iff,
        List.append_assoc, spells_ofCell_append_iff (Json.isContent_escape text.toList) contents, ih,
        ← and_assoc]
      simp only [written, true_imp_iff]
    · rw [if_neg written, if_neg written, ih]
      simp only [written, Bool.false_eq_true, false_imp_iff, true_and]

private theorem wildcard_mem_ofCell_iff {index : Nat} {selected : Bool} {cell : Cell} :
    wildcard index ∈ ofCell selected cell ↔ selected ∧ cell.Holds index := by
  have ofSegment_eq_iff : ∀ segment, ofSegment segment = wildcard index ↔
      ∃ content, segment = .wildcard index content := by
    intro segment
    cases segment <;> simp [ofSegment]
  cases selected with
  | false => simp [ofCell]
  | true =>
    simp only [ofCell, if_true, List.cons_append, List.mem_cons, reduceCtorEq, List.mem_append,
      List.mem_map, ofSegment_eq_iff, List.not_mem_nil, or_false, false_or, true_and, Cell.Holds]
    constructor
    · rintro ⟨_, member, content, rfl⟩
      exact ⟨content, member⟩
    · rintro ⟨content, member⟩
      exact ⟨_, member, content, rfl⟩

/-- The wildcards in the members of an entry are those in the cells that take part in matching. -/
private theorem wildcard_mem_ofMembers_iff {index : Nat} {isFirst : Bool}
    {columns : List (Header × ColumnRole × Cell × Bool)} :
    wildcard index ∈ ofMembers isFirst columns ↔ ∃ header role cell,
      (header, role, cell, true) ∈ columns ∧ role.inCorpus ∧ cell.Holds index := by
  induction columns generalizing isFirst with
  | nil => simp [ofMembers]
  | cons column columns ih =>
    obtain ⟨header, role, cell, selected⟩ := column
    by_cases written : role.inCorpus
    · simp only [ofMembers, if_pos written, List.mem_cons, reduceCtorEq, false_or, List.mem_append,
        wildcard_mem_ofCell_iff, ih]
      constructor
      · rintro (⟨rfl, holds⟩ | ⟨_, _, _, member, more⟩)
        · exact ⟨header, role, cell, .inl rfl, written, holds⟩
        · exact ⟨_, _, _, .inr member, more⟩
      · rintro ⟨_, _, _, same | member, more⟩
        · cases same
          exact .inl ⟨rfl, more.2⟩
        · exact .inr ⟨_, _, _, member, more⟩
    · simp only [ofMembers, if_neg written, ih, List.mem_cons]
      constructor
      · rintro ⟨_, _, _, member, more⟩
        exact ⟨_, _, _, .inr member, more⟩
      · rintro ⟨_, _, _, same | member, more⟩
        · cases same
          exact absurd more.1 written
        · exact ⟨_, _, _, member, more⟩

end TemplateItem

/-! ### Entries -/

namespace Entry

/-- Whether a column takes part in matching an entry: it is selected there, and it is written to the
searchable text. -/
def IsActive (roles : List ColumnRole) (entry : Entry) (column : Nat) : Prop :=
  entry.selection[column]? = some true ∧ ∃ role, roles[column]? = some role ∧ role.inCorpus

/-- Whether a wildcard stands in a cell of an entry that takes part in matching. -/
def Uses (roles : List ColumnRole) (entry : Entry) (index : Nat) : Prop :=
  ∃ column cell, entry.IsActive roles column ∧ entry.cells[column]? = some cell ∧ cell.Holds index

/-- Whether each cell of an entry that takes part in matching is in a relation with the text of a
row in its column. -/
def Faces (roles : List ColumnRole) (entry : Entry) (row : List String)
    (relation : Cell → String → Prop) : Prop :=
  ∀ column, entry.IsActive roles column → ∃ cell text,
    entry.cells[column]? = some cell ∧ row[column]? = some text ∧ relation cell text

/-- The template of an entry spells the line of a row exactly when its cells that take part in
matching stand for what the texts of the row are written as. -/
theorem spells_ofEntry_iff {value : Nat → String}
    (contents : ∀ index, IsContent (value index).toList) {headers : List Header}
    {roles : List ColumnRole} {entry : Entry} {row : List String}
    (covered : headers.length = roles.length) (cells_length : entry.cells.length = headers.length)
    (selection_length : entry.selection.length = headers.length)
    (row_length : row.length = headers.length) :
    Spells value (TemplateItem.ofEntry headers roles entry) (Corpus.lineChars headers roles row) ↔
      entry.Faces roles row fun cell text => Json.escape text.toList = cell.spelled value := by
  let columns : List TemplateItem.FacedColumn :=
    headers.zip (roles.zip ((entry.cells.zip entry.selection).zip row))
  have entry_columns : headers.zip (roles.zip (entry.cells.zip entry.selection)) =
      columns.map (.map id (.map id Prod.fst)) := by
    rw [← List.zip_map_right, ← List.zip_map_right, List.map_fst_zip]
    rw [List.length_zip]
    omega
  have row_columns : headers.zip (roles.zip row) =
      columns.map (.map id (.map id Prod.snd)) := by
    rw [← List.zip_map_right, ← List.zip_map_right, List.map_snd_zip]
    rw [List.length_zip]
    omega
  have braces {items : List TemplateItem} {text : List Char} :
      Spells value (.literal "\x7b" :: items) ('{' :: text) ↔ Spells value items text :=
    TemplateItem.spells_literal_cons_iff
  have closed : Spells value [.literal "\x7d"] ['}'] :=
    TemplateItem.spells_cons_iff.mpr ⟨['}'], [], rfl, rfl, .nil⟩
  rw [TemplateItem.ofEntry, Corpus.lineChars, braces, entry_columns, row_columns,
    TemplateItem.spells_ofMembers_append_iff contents, and_iff_left closed]
  have mem_iff {header : Header} {role : ColumnRole} {cell : Cell} {selected : Bool}
      {text : String} : (header, role, (cell, selected), text) ∈ columns ↔
        ∃ column : Nat, headers[column]? = some header ∧ roles[column]? = some role ∧
          (entry.cells[column]? = some cell ∧ entry.selection[column]? = some selected) ∧
            row[column]? = some text := by
    simp only [columns, List.mem_iff_getElem?, List.getElem?_zip_eq_some]
  constructor
  · rintro spelled column ⟨selected, role, isRole, written⟩
    have inside : column < headers.length := by
      rw [← selection_length]
      exact (List.getElem?_eq_some_iff.mp selected).1
    have present {α : Type} {list : List α} (same : list.length = headers.length) :
        ∃ item, list[column]? = some item :=
      ⟨list.get ⟨column, same ▸ inside⟩, List.getElem?_eq_getElem _⟩
    obtain ⟨header, isHeader⟩ := present (Eq.refl headers.length)
    obtain ⟨cell, isCell⟩ := present cells_length
    obtain ⟨text, isText⟩ := present row_length
    have member := mem_iff.mpr ⟨column, isHeader, isRole, ⟨isCell, selected⟩, isText⟩
    exact ⟨cell, text, isCell, isText, spelled _ member written rfl⟩
  · rintro faces ⟨header, role, ⟨cell, selected⟩, text⟩ member written isSelected
    obtain ⟨column, -, isRole, ⟨isCell, selection⟩, isText⟩ := mem_iff.mp member
    rw [show selected = true from isSelected] at selection
    obtain ⟨_, _, sameCell, sameText, spelled⟩ := faces column ⟨selection, role, isRole, written⟩
    obtain rfl := Option.some.inj (isCell.symm.trans sameCell)
    obtain rfl := Option.some.inj (isText.symm.trans sameText)
    exact spelled

/-- In the corpus of a log, the template of an entry spells the line of a row exactly when the row is
there and its texts are what the cells stand for. -/
theorem spellRow_ofEntry_iff {value : Nat → String}
    (contents : ∀ index, IsContent (value index).toList) {headers : List Header}
    {roles : List ColumnRole} {log : List (List String)} {corpus : Corpus}
    (written : Corpus.ofRows headers roles log = .ok corpus) {entry : Entry}
    (cells_length : entry.cells.length = headers.length)
    (selection_length : entry.selection.length = headers.length) {i : Nat} :
    TemplateItem.SpellRow corpus value (TemplateItem.ofEntry headers roles entry) i ↔
      (∀ index, .wildcard index ∈ TemplateItem.ofEntry headers roles entry →
        IsStretch (value index).toList) ∧
      ∃ row, log[i]? = some row ∧
        entry.Faces roles row fun cell text => Json.escape text.toList = cell.spelled value := by
  obtain ⟨covered, fitting, -⟩ := Corpus.ofRows_eq_ok_iff.mp written
  refine and_congr_right fun _ => ?_
  rw [Corpus.line?_ofRows written]
  cases here : log[i]? with
  | none => simp
  | some row =>
    have row_length := fitting row (List.mem_of_getElem? here)
    simp [spells_ofEntry_iff contents covered cells_length selection_length row_length]

/-- The wildcards in the template of an entry are those in its cells that take part in matching. -/
theorem wildcard_mem_ofEntry_iff {headers : List Header} {roles : List ColumnRole}
    (covered : headers.length = roles.length) {entry : Entry} {index : Nat} :
    .wildcard index ∈ TemplateItem.ofEntry headers roles entry ↔ entry.Uses roles index := by
  simp only [TemplateItem.ofEntry, List.mem_cons, reduceCtorEq, false_or, List.mem_append,
    List.not_mem_nil, or_false, TemplateItem.wildcard_mem_ofMembers_iff]
  constructor
  · rintro ⟨_, role, cell, inColumns, written, holds⟩
    obtain ⟨column, here⟩ := List.mem_iff_getElem?.mp inColumns
    simp only [List.getElem?_zip_eq_some] at here
    obtain ⟨-, isRole, isCell, selected⟩ := here
    exact ⟨column, cell, ⟨selected, role, isRole, written⟩, isCell, holds⟩
  · rintro ⟨column, cell, ⟨selected, role, isRole, written⟩, isCell, holds⟩
    have inside : column < headers.length := by
      rw [covered]
      exact (List.getElem?_eq_some_iff.mp isRole).1
    have here : (headers.zip (roles.zip (entry.cells.zip entry.selection)))[column]? =
        some (headers.get ⟨column, inside⟩, role, cell, true) := by
      simp only [List.getElem?_zip_eq_some]
      exact ⟨List.getElem?_eq_getElem inside, isRole, isCell, selected⟩
    exact ⟨_, role, cell, List.mem_of_getElem? here, written, holds⟩

end Entry

end LogMotif
