import LogMotif.Json.Fault

/-! # Reading from a text

A reader takes a text from the front and keeps count of its place. It may stop at a fault with a
place of its own. Or it may stop at a value of the wrong shape; such a mismatch gets its place from
the list or object that is being read, once that has looked for its closing bracket.
-/

namespace LogMotif.Json

/-- The place behind a character. -/
def Position.after (position : Position) (c : Char) : Position :=
  if c = '\n' then ⟨position.line + 1, 0⟩ else ⟨position.line, position.column + c.utf8Size⟩

/-- What is left of a text, and where it starts. -/
structure Source where
  rest : List Char
  position : Position
deriving DecidableEq, Repr

/-- Why a reader stopped. -/
inductive Stop where
  /-- At a fault with a place. -/
  | fault (fault : Fault)
  /-- At a value of the wrong shape, with this much of the text left. -/
  | pending (mismatch : Mismatch) (source : Source)
deriving DecidableEq, Repr

/-- A reader of a value at the front of a text. -/
abbrev Read := StateT Source (Except Stop)

/-- Whether JSON allows a character between tokens. -/
def isSpace (c : Char) : Bool := c == ' ' || c == '\n' || c == '\t' || c == '\r'

namespace Source

/-- The start of a text. -/
def ofText (text : String) : Source := ⟨text.toList, ⟨1, 0⟩⟩

/-- The place one byte further on, or the end of the text. -/
def ahead (source : Source) : Position :=
  match source.rest with
  | [] => source.position
  | c :: _ =>
    if c = '\n' then ⟨source.position.line + 1, 0⟩
    else ⟨source.position.line, source.position.column + 1⟩

/-- The text behind its first character. -/
def advance (source : Source) : Source :=
  match source.rest with
  | [] => source
  | c :: rest => ⟨rest, source.position.after c⟩

/-- The text behind the blanks in front of it. -/
def skipBlanks (source : Source) : Source := go source.rest source.position
where
  /-- Skip the blanks at the front of a list of characters. -/
  go : List Char → Position → Source
    | [], position => ⟨[], position⟩
    | c :: rest, position =>
      if isSpace c then go rest (position.after c) else ⟨c :: rest, position⟩

/-- Look for the end of a list: behind the closing bracket, or in front of what follows a comma. -/
def closeList (source : Source) : Source :=
  let source := source.skipBlanks
  match source.rest with
  | ']' :: _ => source.advance
  | ',' :: _ => source.advance.skipBlanks
  | _ => source

/-- Look for the end of an object: behind the closing brace, if it is next. -/
def closeObject (source : Source) : Source :=
  let source := source.skipBlanks
  match source.rest with
  | '}' :: _ => source.advance
  | _ => source

end Source

namespace Read

/-- Stop at a fault at the present place. -/
def failHere (reason : Reason) : Read α := fun source =>
  .error (.fault ⟨reason, source.position⟩)

/-- Stop at a fault one byte further on. -/
def failAhead (reason : Reason) : Read α := fun source => .error (.fault ⟨reason, source.ahead⟩)

/-- Stop at a value of the wrong shape. -/
def mismatched (detail : Mismatch) : Read α := fun source => .error (.pending detail source)

/-- The next character, which stays in the text. -/
def peek : Read (Option Char) := fun source => .ok (source.rest.head?, source)

/-- Pass over one character. -/
def advance : Read Unit := fun source => .ok ((), source.advance)

/-- Pass over blanks. -/
def skipBlanks : Read Unit := fun source => .ok ((), source.skipBlanks)

/-- Give a mismatch the place reached after looking for the end of a container. -/
def locatedBy (close : Source → Source) (read : Read α) : Read α := fun source =>
  match read source with
  | .error (.pending detail stopped) =>
    .error (.fault ⟨.mismatch detail, (close stopped).position⟩)
  | result => result

/-- Pass over the given word. -/
def word : List Char → Read Unit
  | [] => return ()
  | expected :: rest => do
    match ← peek with
    | none => failHere .endInValue
    | some c => if c = expected then advance; word rest else failAhead .expectedIdent

/-- Read a whole text, with nothing but blanks after the value. -/
def run (read : Read α) (text : String) : Except Fault α :=
  match read (.ofText text) with
  | .error (.fault fault) => .error fault
  | .error (.pending detail source) => .error ⟨.mismatch detail, source.position⟩
  | .ok (value, source) =>
    let left := source.skipBlanks
    if left.rest.isEmpty then .ok value else .error ⟨.trailingCharacters, left.ahead⟩

end Read

end LogMotif.Json
