import LogMotif.Proofs.Corpus.Rows
import LogMotif.Proofs.Json.Escape

/-! # The lines that rows are written as

In the corpus of a log, the line of a row is the object that the row is written as: what is written
holds no line feed but the one behind it, so rows and lines are the same in number and order.
-/

namespace LogMotif

namespace LineItem

theorem IsContent.not_mem_lineFeed {text : List Char} (content : IsContent text) : '\n' ∉ text := by
  induction content with
  | nil => simp
  | plain unit _ ih => simp [ih, (ne_of_isPlain unit).2.2.symm]
  | escaped unit _ ih => simp [ih, unit.symm]

end LineItem

namespace Text

theorem splitLines_append_lineFeed {line : List Char} (inLine : '\n' ∉ line) (rest : List Char) :
    splitLines (line ++ '\n' :: rest) = (line ++ ['\n']) :: splitLines rest := by
  induction line with
  | nil => rfl
  | cons c line ih =>
    obtain ⟨other, inLine⟩ := not_or.mp (mt List.mem_cons.mpr inLine)
    have behind := ih inLine
    rw [splitLines] at behind ⊢
    rw [List.cons_append, List.foldr_cons, behind, consChar, if_neg (Ne.symm other)]
    rfl

theorem dropLineFeed_append (line : List Char) : dropLineFeed (line ++ ['\n']) = line := by
  simp [dropLineFeed]

theorem dropLineBreak_append_lineFeed (line : List Char) :
    dropLineBreak (line ++ ['\n']) = if line.getLast? = some '\r' then line.dropLast else line := by
  simp [dropLineBreak]

theorem lines_append_lineFeed {line : List Char} (inLine : '\n' ∉ line) (rest : List Char) :
    lines (line ++ '\n' :: rest) =
      (if line.getLast? = some '\r' then line.dropLast else line) :: lines rest := by
  rw [lines, splitLines_append_lineFeed inLine, List.map_cons, dropLineBreak_append_lineFeed]
  rfl

theorem splitLines_of_not_mem {line : List Char} (inLine : '\n' ∉ line) (filled : line ≠ []) :
    splitLines line = [line] := by
  induction line with
  | nil => exact absurd rfl filled
  | cons c line ih =>
    obtain ⟨other, inLine⟩ := not_or.mp (mt List.mem_cons.mpr inLine)
    have here : splitLines (c :: line) = consChar c (splitLines line) := rfl
    cases line with
    | nil => exact if_neg (Ne.symm other)
    | cons next line =>
      rw [here, ih inLine (List.cons_ne_nil next line), consChar, if_neg (Ne.symm other)]

/-- A text without a line feed is one line. -/
theorem lines_of_not_mem {line : List Char} (inLine : '\n' ∉ line) (filled : line ≠ []) :
    lines line = [line] := by
  have whole : dropLineBreak line = line :=
    if_neg fun isLast => inLine (List.mem_of_getLast? isLast)
  rw [lines, splitLines_of_not_mem inLine filled, List.map_singleton, whole]

end Text

namespace Corpus

/-- The characters of the members of a line, with a comma in front of all but the first. -/
def memberChars (isFirst : Bool) : List (Header × ColumnRole × String) → List Char
  | [] => []
  | (header, role, cell) :: rest =>
    if role.inCorpus then
      (if isFirst then [] else [',']) ++ (Json.quote header.name).toList ++ ':' ::
        ((Json.quote cell).toList ++ memberChars false rest)
    else memberChars isFirst rest

/-- The characters of the line of a row, without its line feed. -/
def lineChars (headers : List Header) (roles : List ColumnRole) (row : List String) : List Char :=
  '{' :: (memberChars true (headers.zip (roles.zip row)) ++ ['}'])

theorem toList_intercalate_cons (separator first : String) (rest : List String) :
    (String.intercalate separator (first :: rest)).toList =
      first.toList ++ rest.flatMap fun member => separator.toList ++ member.toList := by
  induction rest generalizing first with
  | nil => simp
  | cons second rest ih => simp [ih]

/-- The members of a row by their columns. -/
def members (columns : List (Header × ColumnRole × String)) : List String :=
  columns.filterMap fun (header, role, cell) =>
    if role.inCorpus then some (Json.quote header.name ++ ":" ++ Json.quote cell) else none

private theorem memberChars_false (columns : List (Header × ColumnRole × String)) :
    memberChars false columns = (members columns).flatMap fun member => ',' :: member.toList := by
  induction columns with
  | nil => rfl
  | cons column columns ih =>
    obtain ⟨header, role, cell⟩ := column
    by_cases written : role.inCorpus
    · simp [memberChars, members, written, ih]
    · simp [memberChars, members, written, ih]

theorem memberChars_true (columns : List (Header × ColumnRole × String)) :
    memberChars true columns = (String.intercalate "," (members columns)).toList := by
  induction columns with
  | nil => rfl
  | cons column columns ih =>
    obtain ⟨header, role, cell⟩ := column
    by_cases written : role.inCorpus
    · have here : members ((header, role, cell) :: columns) =
          (Json.quote header.name ++ ":" ++ Json.quote cell) :: members columns := by
        simp [members, written]
      rw [here, toList_intercalate_cons, memberChars, if_pos written, memberChars_false]
      simp
    · have here : members ((header, role, cell) :: columns) = members columns := by
        simp [members, written]
      rw [here, ← ih, memberChars, if_neg written]

private theorem toList_writeRow (headers : List Header) (roles : List ColumnRole)
    (row : List String) :
    (writeRow headers roles row).toList = lineChars headers roles row ++ ['\n'] := by
  have written : writeMembers headers roles row = members (headers.zip (roles.zip row)) := rfl
  rw [writeRow, written, String.toList_append, String.toList_append, ← memberChars_true, lineChars]
  simp

private theorem lineFeed_not_mem_memberChars (isFirst : Bool)
    (columns : List (Header × ColumnRole × String)) : '\n' ∉ memberChars isFirst columns := by
  have inLine : ∀ text, '\n' ∉ (Json.quote text).toList := by
    intro text
    simp [Json.toList_quote, (Json.isContent_escape text.toList).not_mem_lineFeed]
  induction columns generalizing isFirst with
  | nil => simp [memberChars]
  | cons column columns ih =>
    obtain ⟨header, role, cell⟩ := column
    rw [memberChars]
    split
    next => cases isFirst <;> simp [inLine, ih]
    next => exact ih isFirst

theorem lineFeed_not_mem_lineChars (headers : List Header) (roles : List ColumnRole)
    (row : List String) : '\n' ∉ lineChars headers roles row := by
  simp [lineChars, lineFeed_not_mem_memberChars]

theorem splitLines_rows (headers : List Header) (roles : List ColumnRole)
    (rows : List (List String)) :
    Text.splitLines (String.join (rows.map (writeRow headers roles))).toList =
      rows.map fun row => lineChars headers roles row ++ ['\n'] := by
  induction rows with
  | nil => rfl
  | cons row rows ih =>
    rw [List.map_cons, String.join_cons, String.toList_append, toList_writeRow, List.append_assoc,
      List.singleton_append,
      Text.splitLines_append_lineFeed (lineFeed_not_mem_lineChars headers roles row), ih,
      List.map_cons]

/-- When a log is written, and to which corpus. -/
theorem ofRows_eq_ok_iff {headers : List Header} {roles : List ColumnRole}
    {rows : List (List String)} {corpus : Corpus} :
    ofRows headers roles rows = .ok corpus ↔ headers.length = roles.length ∧
      (∀ row ∈ rows, row.length = headers.length) ∧
        corpus = ofText (String.join (rows.map (writeRow headers roles))) := by
  rw [← checkRows_eq_ok_iff]
  unfold ofRows
  by_cases covered : headers.length = roles.length
  · cases checkRows headers.length rows with
    | error => simp [covered, bind, Except.bind]
    | ok => simpa [covered, bind, Except.bind, pure, Except.pure] using eq_comm
  · simp [covered, bind, Except.bind, throw, throwThe, MonadExceptOf.throw]

theorem rowCount_ofRows {headers : List Header} {roles : List ColumnRole}
    {rows : List (List String)} {corpus : Corpus} (written : ofRows headers roles rows = .ok corpus) :
    corpus.rowCount = rows.length := by
  obtain ⟨-, -, rfl⟩ := ofRows_eq_ok_iff.mp written
  rw [rowCount_eq, ofText, splitLines_rows, List.length_map]

/-- The line of a row is what the row is written as. -/
theorem line?_ofRows {headers : List Header} {roles : List ColumnRole}
    {rows : List (List String)} {corpus : Corpus} (written : ofRows headers roles rows = .ok corpus)
    (i : Nat) :
    corpus.line? i = (rows[i]?).map fun row => String.ofList (lineChars headers roles row) := by
  obtain ⟨-, -, rfl⟩ := ofRows_eq_ok_iff.mp written
  rw [line?, rowText?_eq, ofText, splitLines_rows, List.getElem?_map]
  cases rows[i]? with
  | none => rfl
  | some row => simp [Text.dropLineFeed_append]

/-- The text of the lines from one row up to another, each with its line feed. -/
def textBetween (contents : List (List Char)) (start stop : Nat) : List Char :=
  (((contents.take stop).drop start).map (· ++ ['\n'])).flatten

theorem textBetween_append (contents : List (List Char)) {start middle stop : Nat}
    (before : start ≤ middle) (behind : middle ≤ stop) :
    textBetween contents start middle ++ textBetween contents middle stop =
      textBetween contents start stop := by
  have front : (contents.take middle).drop start =
      ((contents.take stop).drop start).take (middle - start) := by
    rw [List.take_drop, Nat.add_sub_cancel' before, List.take_take, Nat.min_eq_left behind]
  have back : (contents.take stop).drop middle =
      ((contents.take stop).drop start).drop (middle - start) := by
    rw [List.drop_drop, Nat.add_sub_cancel' before]
  rw [textBetween, textBetween, front, back, ← List.flatten_append, ← List.map_append,
    List.take_append_drop, textBetween]

theorem textBetween_succ {contents : List (List Char)} {row : Nat} {content : List Char}
    (here : contents[row]? = some content) :
    textBetween contents row (row + 1) = content ++ ['\n'] := by
  rw [textBetween, drop_take_succ here, List.map_singleton, List.flatten_singleton]

/-- The text from one row of a log to another is made up of their lines. -/
theorem between?_ofRows {headers : List Header} {roles : List ColumnRole}
    {rows : List (List String)} {corpus : Corpus} (written : ofRows headers roles rows = .ok corpus)
    {first last : Nat} (ordered : first ≤ last) (inside : last < rows.length) :
    corpus.between? first last =
      some (String.ofList (textBetween (rows.map (lineChars headers roles)) first (last + 1))) := by
  have lines_eq : Text.splitLines corpus.text.toList =
      (rows.map (lineChars headers roles)).map (· ++ ['\n']) := by
    obtain ⟨-, -, rfl⟩ := ofRows_eq_ok_iff.mp written
    rw [List.map_map]
    exact splitLines_rows headers roles rows
  rw [corpus.between?_eq ordered (by rwa [lines_eq, List.length_map, List.length_map]), lines_eq,
    ← List.map_take, ← List.map_drop]
  rfl

end Corpus

end LogMotif
