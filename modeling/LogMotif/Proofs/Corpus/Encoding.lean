import Mathlib.Data.List.Forall2
import LogMotif.Proofs.Json.Layout

/-! # A corpus encodes its log

The line of a row is a JSON object that reads back as the names and the cells of the columns that
are written. So no two rows that differ in such a column are written alike, and the text of a corpus
tells how many rows its log has and what stands in these columns.
-/

namespace LogMotif

open Json (Value)

/-- Whether two logs have equally many rows, which have the same texts in some columns. -/
def AgreeOn (columns : Nat → Prop) : List (List String) → List (List String) → Prop :=
  List.Forall₂ fun row other => ∀ column, columns column → row[column]? = other[column]?

namespace Corpus

/-- Whether a column is written to the searchable text. -/
def IsWritten (roles : List ColumnRole) (column : Nat) : Prop :=
  ∃ role, roles[column]? = some role ∧ role.inCorpus

/-- The members of the object that a row stands for: for each column that is written its name, with
the cell as a string. -/
def fields (headers : List Header) (roles : List ColumnRole) (row : List String) :
    List (String × Value) :=
  ((headers.zip (roles.zip row)).filter (·.2.1.inCorpus)).map fun (header, _, cell) =>
    (header.name, .string cell)

variable {headers : List Header} {roles : List ColumnRole} {row other : List String}

theorem fields_cons (header : Header) (headers : List Header) (role : ColumnRole)
    (roles : List ColumnRole) (cell : String) (row : List String) :
    fields (header :: headers) (role :: roles) (cell :: row) =
      if role.inCorpus then (header.name, .string cell) :: fields headers roles row
      else fields headers roles row := by
  by_cases written : role.inCorpus <;> simp [fields, written]

/-- Rows stand for the same object when they have the same cells in the columns that are written. -/
private theorem fields_eq_iff (covered : headers.length = roles.length)
    (fits : row.length = headers.length) (fitsOther : other.length = headers.length) :
    fields headers roles row = fields headers roles other ↔
      ∀ column, IsWritten roles column → row[column]? = other[column]? := by
  induction headers generalizing roles row other with
  | nil =>
    obtain rfl := List.length_eq_zero_iff.mp fits
    obtain rfl := List.length_eq_zero_iff.mp fitsOther
    simp
  | cons header headers ih =>
    obtain ⟨role, roles, rfl⟩ := List.exists_cons_of_length_eq_add_one covered.symm
    obtain ⟨cell, row, rfl⟩ := List.exists_cons_of_length_eq_add_one fits
    obtain ⟨otherCell, other, rfl⟩ := List.exists_cons_of_length_eq_add_one fitsOther
    have behind := ih (by simpa using covered) (by simpa using fits) (by simpa using fitsOther)
    have columns_iff : (∀ column, IsWritten (role :: roles) column →
          (cell :: row)[column]? = (otherCell :: other)[column]?) ↔
        (role.inCorpus → cell = otherCell) ∧
          ∀ column, IsWritten roles column → row[column]? = other[column]? := by
      constructor
      · intro same
        refine ⟨fun written => ?_, fun column isWritten => same (column + 1) isWritten⟩
        exact Option.some.inj (same 0 ⟨role, rfl, written⟩)
      · rintro ⟨here, behind⟩ (_ | column) isWritten
        · obtain ⟨_, isRole, written⟩ := isWritten
          obtain rfl := Option.some.inj isRole
          exact congrArg some (here written)
        · exact behind column isWritten
    rw [columns_iff, ← behind, fields_cons, fields_cons]
    by_cases written : role.inCorpus <;> simp [written]

private theorem compactMembers_fields (headers : List Header) (roles : List ColumnRole)
    (row : List String) : Value.compactMembers (fields headers roles row) =
      members (headers.zip (roles.zip row)) := by
  rw [Value.compactMembers_eq_map, fields, List.map_map]
  induction headers.zip (roles.zip row) with
  | nil => rfl
  | cons column columns ih =>
    obtain ⟨header, role, cell⟩ := column
    by_cases written : role.inCorpus
    · simpa [members, written, Value.compact] using ih
    · simpa [members, written] using ih

/-- The characters of a line are those of the object that the row stands for. -/
theorem lineChars_eq_chars (headers : List Header) (roles : List ColumnRole) (row : List String) :
    lineChars headers roles row = (Value.object (fields headers roles row)).chars := by
  rw [Value.chars_object, compactMembers_fields, ← memberChars_true]
  rfl

/-- The line of a row is read as the object that the row stands for. -/
theorem ofText_lineChars (headers : List Header) (roles : List ColumnRole) (row : List String) :
    Value.ofText (String.ofList (lineChars headers roles row)) =
      .ok (.object (fields headers roles row)) := by
  have plain : (Value.object (fields headers roles row)).IsPlain Json.nestingLimit := by
    refine .object fun member inMembers => ?_
    obtain ⟨⟨_, _, cell⟩, -, rfl⟩ := List.mem_map.mp inMembers
    exact .string 126 cell
  rw [lineChars_eq_chars, Value.chars, String.ofList_toList]
  exact Value.ofText_of_hasText plain (Value.hasText_compact _)

/-- Rows are written alike when they have the same cells in the columns that are written. -/
theorem lineChars_eq_iff (covered : headers.length = roles.length)
    (fits : row.length = headers.length) (fitsOther : other.length = headers.length) :
    lineChars headers roles row = lineChars headers roles other ↔
      ∀ column, IsWritten roles column → row[column]? = other[column]? := by
  rw [← fields_eq_iff covered fits fitsOther]
  constructor
  · intro same
    have read := ofText_lineChars headers roles row
    rw [same, ofText_lineChars] at read
    exact (Value.object.inj (Except.ok.inj read)).symm
  · intro same
    rw [lineChars_eq_chars, lineChars_eq_chars, same]

/-- Two logs are written alike when they have equally many rows, with the same cells in the columns
that are written. -/
theorem text_eq_iff_agreeOn {rows others : List (List String)} {corpus otherCorpus : Corpus}
    (written : ofRows headers roles rows = .ok corpus)
    (writtenOther : ofRows headers roles others = .ok otherCorpus) :
    corpus.text = otherCorpus.text ↔ AgreeOn (IsWritten roles) rows others := by
  obtain ⟨covered, fits, rfl⟩ := ofRows_eq_ok_iff.mp written
  obtain ⟨-, fitsOther, rfl⟩ := ofRows_eq_ok_iff.mp writtenOther
  have injective : Function.Injective Text.splitLines :=
    Function.LeftInverse.injective Text.flatten_splitLines
  rw [ofText, ofText, ← String.toList_inj, ← injective.eq_iff, splitLines_rows, splitLines_rows,
    ← List.forall₂_eq_eq_eq, List.forall₂_map_left_iff, List.forall₂_map_right_iff, AgreeOn,
    List.forall₂_iff_zip, List.forall₂_iff_zip]
  refine and_congr_right fun _ => forall₃_congr fun row other paired => ?_
  obtain ⟨inRows, inOthers⟩ := List.of_mem_zip paired
  rw [List.append_left_inj, lineChars_eq_iff covered (fits row inRows) (fitsOther other inOthers)]

/-- The corpus of a log has a line for each row, which holds no line feed and is read as an object
with the cells of the row by the names of their columns. Two logs have the same corpus exactly when
they have equally many rows that agree in the columns that are written. -/
theorem ofRows_encodes {rows : List (List String)} {corpus : Corpus}
    (written : ofRows headers roles rows = .ok corpus) :
    corpus.rowCount = rows.length ∧
      (∀ i row, rows[i]? = some row → ∃ line, corpus.line? i = some line ∧ '\n' ∉ line.toList ∧
        Value.ofText line = .ok (.object (fields headers roles row))) ∧
      ∀ others otherCorpus, ofRows headers roles others = .ok otherCorpus →
        (corpus.text = otherCorpus.text ↔ AgreeOn (IsWritten roles) rows others) := by
  refine ⟨rowCount_ofRows written, fun i row here => ?_,
    fun _ _ writtenOther => text_eq_iff_agreeOn written writtenOther⟩
  refine ⟨String.ofList (lineChars headers roles row), ?_, ?_, ofText_lineChars headers roles row⟩
  · rw [line?_ofRows written, here, Option.map_some]
  · rw [String.toList_ofList]
    exact lineFeed_not_mem_lineChars headers roles row

/-- Two logs that differ in a rule column, with a quote in a name and a line feed, a backslash and a
control character in cells. -/
theorem ofRows_leaves_out_rule_column :
    let headers : List Header := [⟨"a\"b", .string⟩, ⟨"color", .string⟩, ⟨"m", .string⟩]
    let roles : List ColumnRole := [.timestamp, .rule, .content]
    ∃ corpus otherCorpus : Corpus,
      ofRows headers roles [["\n", "red", "x\\\x01"], ["", "", ""]] = .ok corpus ∧
      ofRows headers roles [["\n", "blue", "x\\\x01"], ["", "red", ""]] = .ok otherCorpus ∧
      corpus.rowCount = 2 ∧ corpus.text = otherCorpus.text ∧
      ∃ line, corpus.line? 0 = some line ∧ '\n' ∉ line.toList ∧
        Value.ofText line =
          .ok (.object [("a\"b", .string "\n"), ("m", .string "x\\\x01")]) := by
  intro headers roles
  obtain ⟨corpus, otherCorpus, written, writtenOther⟩ :
      ∃ corpus otherCorpus : Corpus,
        ofRows headers roles [["\n", "red", "x\\\x01"], ["", "", ""]] = .ok corpus ∧
        ofRows headers roles [["\n", "blue", "x\\\x01"], ["", "red", ""]] = .ok otherCorpus :=
    ⟨_, _, rfl, rfl⟩
  obtain ⟨count, lines, alike⟩ := ofRows_encodes written
  have leftOut : ¬ IsWritten roles 1 := by rintro ⟨_, ⟨⟩, ⟨⟩⟩
  have agree : AgreeOn (IsWritten roles) [["\n", "red", "x\\\x01"], ["", "", ""]]
      [["\n", "blue", "x\\\x01"], ["", "red", ""]] := by
    refine .cons (fun column isWritten => ?_) (.cons (fun column isWritten => ?_) .nil)
    all_goals
      match column with
      | 0 => rfl
      | 1 => exact absurd isWritten leftOut
      | _ + 2 => rfl
  exact ⟨corpus, otherCorpus, written, writtenOther, count,
    (alike _ _ writtenOther).mpr agree, lines 0 _ rfl⟩

end Corpus

end LogMotif
