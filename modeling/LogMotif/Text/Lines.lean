/-! # Lines of a text

A text is cut behind each line feed. The pieces keep their line feeds, so together they are the
text; the last one may have none.
-/

namespace LogMotif.Text

/-- Put a character in front of the pieces of a text: a line feed ends the line it starts. -/
def consChar (c : Char) (pieces : List (List Char)) : List (List Char) :=
  if c = '\n' then [c] :: pieces
  else
    match pieces with
    | [] => [[c]]
    | line :: lines => (c :: line) :: lines

/-- The pieces of a text, each up to and with its line feed. -/
def splitLines (text : List Char) : List (List Char) := text.foldr consChar []

/-- A line without its line feed. -/
def dropLineFeed (line : List Char) : List Char :=
  if line.getLast? = some '\n' then line.dropLast else line

/-- A line without its line break, which is a line feed or a carriage return before a line feed. -/
def dropLineBreak (line : List Char) : List Char :=
  if line.getLast? = some '\n' then
    let content := line.dropLast
    if content.getLast? = some '\r' then content.dropLast else content
  else line

/-- The lines of a text, without their line breaks. -/
def lines (text : List Char) : List (List Char) := (splitLines text).map dropLineBreak

private theorem flatten_consChar (c : Char) (pieces : List (List Char)) :
    (consChar c pieces).flatten = c :: pieces.flatten := by
  by_cases feed : c = '\n'
  · simp [consChar, feed]
  · cases pieces <;> simp [consChar, feed]

/-- Cutting a text into lines loses nothing. -/
theorem flatten_splitLines (text : List Char) : (splitLines text).flatten = text := by
  induction text with
  | nil => rfl
  | cons c rest ih => rw [splitLines, List.foldr_cons, flatten_consChar]; exact congrArg _ ih

end LogMotif.Text
