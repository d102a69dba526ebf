import LogMotif.Pattern.Line
import LogMotif.Proofs.Pattern.Readback

/-! # The pieces that a pattern is read as

A sequence is read piece by piece: a literal text as its characters, each by itself, and any other
item as one piece that stands as it was meant. What is read of a whole line pattern are the pieces of
its items, one after the other.
-/

namespace LogMotif

namespace Regex

/-- The pieces that a text is read as, if it stands for itself. -/
def characters (text : String) : List Regex :=
  text.toList.map fun c => .literal (String.singleton c)

/-- The level with more pieces. -/
def Level.pushAll (level : Level) (pieces : List Regex) : Level := pieces.foldl Level.push level

/-- Whether an expression is written as a text, which adds some pieces to the sequence in which it is
read. -/
structure IsWritten (regex : Regex) (written : String) (pieces : List Regex) : Prop where
  sequential : regex.isChoice = false
  writable : regex.isWritable
  source_eq : regex.source = written
  add_eq : ∀ level : Level, level.add regex = level.pushAll pieces

@[simp]
theorem characters_append (front back : String) :
    characters (front ++ back) = characters front ++ characters back := by
  simp [characters]

@[simp]
theorem escapeText_append (front back : String) :
    escapeText (front ++ back) = escapeText front ++ escapeText back := by
  simp [escapeText, String.ofList_append]

/-- The characters of a text match this text, and nothing else. -/
theorem matches_characters (multiLine : Bool) (text : String) :
    (sequence (characters text)).Matches multiLine = Place.Passes text.toList := by
  rw [characters]
  induction text.toList with
  | nil =>
    rw [Place.passes_nil]
    rfl
  | cons c rest ih =>
    rw [List.map_cons, matches_sequence_cons, ih, Matches, String.toList_singleton,
      ← Place.passes_append, List.singleton_append]

theorem Level.pushAll_append (level : Level) (front back : List Regex) :
    level.pushAll (front ++ back) = (level.pushAll front).pushAll back :=
  List.foldl_append ..

private theorem Level.pushAll_eq (level : Level) (pieces : List Regex) :
    level.pushAll pieces = { level with pieces := pieces.reverse ++ level.pieces } := by
  induction pieces generalizing level with
  | nil => rfl
  | cons piece pieces ih =>
    rw [pushAll, List.foldl_cons, ← pushAll, ih]
    simp [push]

theorem isWritten_empty : IsWritten .empty "" [] := ⟨rfl, rfl, rfl, fun _ => rfl⟩

theorem isWritten_literal (content : String) :
    IsWritten (.literal content) (escapeText content) (characters content) :=
  ⟨rfl, rfl, rfl, fun level => by rw [Level.add, Level.pushAll, characters, List.foldl_map]⟩

/-- An expression that is read as one piece. -/
theorem isWritten_piece {piece : Regex} (sequential : piece.isChoice = false)
    (writable : piece.isWritable) (one : ∀ level : Level, level.add piece = level.push piece) :
    piece.IsWritten piece.source [piece] :=
  ⟨sequential, writable, rfl, one⟩

theorem IsWritten.append {first second : Regex} {front back : String} {pieces others : List Regex}
    (isFirst : first.IsWritten front pieces) (isSecond : second.IsWritten back others) :
    (append first second).IsWritten (front ++ back) (pieces ++ others) := by
  have itself {regex : Regex} (sequential : regex.isChoice = false) (written : String) :
      bracketAlternative regex written = written := by
    cases regex with
    | either => cases sequential
    | _ => rfl
  refine ⟨rfl, ?_, ?_, fun level => ?_⟩
  · simp [isWritable, isFirst.writable, isSecond.writable]
  · rw [source, itself isFirst.sequential, itself isSecond.sequential, isFirst.source_eq,
      isSecond.source_eq]
  · simp [Level.add, isFirst.sequential, isSecond.sequential, isFirst.add_eq, isSecond.add_eq,
      Level.pushAll_append]

/-- What is read of the written form, with the flag in front that makes lines count. -/
theorem IsWritten.ofSource?_flagged {regex : Regex} {written : String} {pieces : List Regex}
    (isWritten : regex.IsWritten written pieces) :
    ofSource? ("(?m)" ++ written) = some (true, sequence pieces) := by
  rw [← isWritten.source_eq, ofSource?_source isWritten.writable, isWritten.add_eq,
    Level.pushAll_eq]
  simp [Level.regex]

/-- What is read of the written form by itself, if no bracket stands in front. -/
theorem IsWritten.ofSource?_eq {regex : Regex} {written : String} {pieces : List Regex}
    (isWritten : regex.IsWritten written pieces) (unflagged : written.toList.head? ≠ some '(') :
    ofSource? written = some (false, sequence pieces) := by
  obtain ⟨mode, ready, reads⟩ := isRead isWritten.writable {} rfl
  rw [isWritten.source_eq, isWritten.add_eq, Level.pushAll_eq] at reads
  unfold ofSource?
  split
  next flagged => exact absurd (by rw [flagged]; rfl) unflagged
  next =>
    simp only [reads, Option.bind_eq_bind, Option.bind_some]
    simp [Reader.done?, ready, Level.regex]

end Regex

namespace LineItem

/-- The pieces that an item of a line is read as. -/
def pieces : LineItem → List Regex
  | literal content => Regex.characters content
  | anyString => Regex.characters "\"" ++
      (.repeated Regex.stringUnit .zeroOrMore .greedy :: Regex.characters "\"")
  | item => [item.regex]

theorem isWritten (item : LineItem) : item.regex.IsWritten item.regex.source item.pieces := by
  cases item with
  | literal content => exact Regex.isWritten_literal content
  | anyString => exact ⟨rfl, rfl, rfl, fun _ => rfl⟩
  | _ => exact Regex.isWritten_piece rfl rfl fun _ => rfl

end LineItem

namespace LinePattern

/-- The items of a line pattern as they are written, one after the other. -/
def written (pattern : LinePattern) : String := String.join (pattern.map (·.regex.source))

/-- The pieces that a line pattern is read as. -/
def pieces (pattern : LinePattern) : List Regex := pattern.flatMap LineItem.pieces

theorem written_cons (item : LineItem) (pattern : LinePattern) :
    written (item :: pattern) = item.regex.source ++ pattern.written := by
  rw [written, List.map_cons, String.join_cons, ← written]

theorem pieces_cons (item : LineItem) (pattern : LinePattern) :
    pieces (item :: pattern) = item.pieces ++ pattern.pieces := List.flatMap_cons

theorem isWritten (pattern : LinePattern) :
    pattern.regex.IsWritten pattern.written pattern.pieces := by
  induction pattern with
  | nil => exact Regex.isWritten_empty
  | cons item pattern ih =>
    rw [written_cons, pieces_cons]
    exact item.isWritten.append ih

end LinePattern

end LogMotif
