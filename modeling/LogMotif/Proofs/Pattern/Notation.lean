import LogMotif.Pattern.Regex

/-! # Reading regular expressions

An expression that is given as a text is read character by character, wherever it comes from. A
character that acts as an operator does so unless it stands behind a backslash, a repetition holds
for the one piece in front of it, and a bracket ends where it is closed. What is outside the notation
that expressions are written in is refused.
-/

namespace LogMotif

namespace Regex

/-- What a bracket does with the expression inside. -/
inductive Bracket where
  | plain
  | capture (wildcard : Nat)

/-- The expression that a bracket makes of the one inside. -/
def Bracket.close : Bracket → Regex → Regex
  | plain, inside => inside
  | capture wildcard, inside => .capture wildcard inside

/-- Pieces one after the other. -/
def sequence : List Regex → Regex
  | [] => empty
  | [piece] => piece
  | piece :: pieces => append piece (sequence pieces)

/-- What has been read of an expression that is not inside a further bracket. -/
structure Level where
  /-- The alternatives in front of the current one, the last first. -/
  alternatives : List Regex := []
  /-- The pieces of the current alternative, the last first. -/
  pieces : List Regex := []

namespace Level

/-- The expression that has been read. -/
def regex (level : Level) : Regex :=
  level.alternatives.foldl (fun behind front => either front behind) (sequence level.pieces.reverse)

/-- The level with one more piece. -/
def push (level : Level) (piece : Regex) : Level := { level with pieces := piece :: level.pieces }

/-- The level at the start of a further alternative. -/
def next (level : Level) : Level :=
  { alternatives := sequence level.pieces.reverse :: level.alternatives }

/-- The level with its last piece changed, if it has one. -/
def modifyLast? (change : Regex → Option Regex) : Level → Option Level
  | ⟨_, []⟩ => none
  | ⟨alternatives, piece :: pieces⟩ => (change piece).map fun piece => ⟨alternatives, piece :: pieces⟩

end Level

/-- What is being read. -/
inductive Mode where
  /-- A piece may begin, and the one in front may be repeated. -/
  | piece
  /-- A piece may begin, and the repetition in front may be made frugal. -/
  | repeated
  /-- A piece may begin. -/
  | closed
  /-- What stands behind a backslash. -/
  | escape
  /-- A certain character, before what is read in another mode. -/
  | expect (character : Char) (next : Mode)
  /-- What a bracket does. -/
  | bracket
  /-- The name of a group, of which some characters have been read, the last first. -/
  | name (opens : Bool) (read : List Char)
  /-- How often the piece in front is repeated. -/
  | count (read : List Char)
  /-- The characters that a class leaves out, the last first. -/
  | excluded (read : List Char)
  /-- What stands behind a backslash inside a class. -/
  | excludedEscape (read : List Char)

/-- Whether a piece may begin. -/
def Mode.isReady : Mode → Bool
  | piece | repeated | closed => true
  | _ => false

/-- Where the reader stands: its mode, and the current level with those around it, each with the
bracket that it has opened, the innermost first. -/
structure Reader where
  mode : Mode := .piece
  level : Level := {}
  outer : List (Bracket × Level) := []

/-- The number that some digits stand for, if that is how it is written. -/
def decimal? (digits : List Char) : Option Nat :=
  let number := Nat.ofDigitChars 10 digits 0
  if Nat.toDigits 10 number = digits then some number else none

/-- The wildcard after which a group is named. -/
def wildcardNamed? : List Char → Option Nat
  | 'w' :: digits => decimal? digits
  | _ => none

/-- The repetition that stands between braces. -/
def repetitionOf? : List Char → Option Repetition
  | '0' :: ',' :: digits => (decimal? digits).map .upTo
  | digits => (decimal? digits).map .exactly

/-- The frugal form of a repetition. -/
def frugal? : Regex → Option Regex
  | .repeated operand repetition _ => some (.repeated operand repetition .frugal)
  | _ => none

/-- The characters that do not stand for themselves in a class. -/
def classOperators : List Char := '-' :: '&' :: '~' :: operators

namespace Reader

/-- The reader in another mode. -/
def inMode (reader : Reader) (mode : Mode) : Reader := { reader with mode }

/-- The reader behind one more piece. -/
def push (reader : Reader) (piece : Regex) : Reader :=
  { reader with mode := .piece, level := reader.level.push piece }

/-- The reader inside a bracket. -/
def enter (reader : Reader) (bracket : Bracket) : Reader :=
  { outer := (bracket, reader.level) :: reader.outer }

/-- The reader behind the bracket that it is inside of. -/
def leave? : Reader → Option Reader
  | ⟨_, _, []⟩ => none
  | ⟨_, level, (bracket, around) :: outer⟩ =>
    some ⟨.piece, around.push (bracket.close level.regex), outer⟩

/-- The reader behind a repetition of the last piece. -/
def repeatLast? (reader : Reader) (repetition : Repetition) : Option Reader :=
  (reader.level.modifyLast? fun piece => some (.repeated piece repetition .greedy)).map fun level =>
    { reader with mode := .repeated, level }

/-- Read a character where a piece may begin, but none may be repeated. -/
def stepPiece (reader : Reader) (c : Char) : Option Reader :=
  match c with
  | '\\' => some (reader.inMode .escape)
  | '.' => some (reader.push .anyInLine)
  | '^' => some (reader.push .lineStart)
  | '$' => some (reader.push .lineEnd)
  | '[' => some (reader.inMode (.expect '^' (.excluded [])))
  | '(' => some (reader.inMode (.expect '?' .bracket))
  | ')' => reader.leave?
  | '|' => some { reader with mode := .piece, level := reader.level.next }
  | c => if c ∈ operators then none else some (reader.push (.literal (String.singleton c)))

/-- Read one character. -/
def step (reader : Reader) (c : Char) : Option Reader :=
  match reader.mode with
  | .piece =>
    match c with
    | '*' => reader.repeatLast? .zeroOrMore
    | '+' => reader.repeatLast? .oneOrMore
    | '{' => some (reader.inMode (.count []))
    | c => reader.stepPiece c
  | .repeated =>
    if c = '?' then
      (reader.level.modifyLast? frugal?).map fun level => { reader with mode := .closed, level }
    else reader.stepPiece c
  | .closed => reader.stepPiece c
  | .escape =>
    match c with
    | 'n' => some (reader.push .lineFeed)
    | 'k' => some (reader.inMode (.expect '<' (.name false [])))
    | c => if c ∈ operators then some (reader.push (.literal (String.singleton c))) else none
  | .expect character next => if c = character then some (reader.inMode next) else none
  | .bracket =>
    match c with
    | ':' => some (reader.enter .plain)
    | 'P' => some (reader.inMode (.expect '<' (.name true [])))
    | _ => none
  | .name opens read =>
    if c = '>' then (wildcardNamed? read.reverse).map fun wildcard =>
      if opens then reader.enter (.capture wildcard) else reader.push (.recalled wildcard)
    else some (reader.inMode (.name opens (c :: read)))
  | .count read =>
    if c = '}' then (repetitionOf? read.reverse).bind reader.repeatLast?
    else some (reader.inMode (.count (c :: read)))
  | .excluded read =>
    match c with
    | ']' => some (reader.push (.noneOf read.reverse))
    | '\\' => some (reader.inMode (.excludedEscape read))
    | c => if c ∈ classOperators then none else some (reader.inMode (.excluded (c :: read)))
  | .excludedEscape read =>
    match c with
    | 'n' => some (reader.inMode (.excluded ('\n' :: read)))
    | c => if c ∈ classOperators then some (reader.inMode (.excluded (c :: read))) else none

/-- Read some characters. -/
def run (reader : Reader) (text : List Char) : Option Reader := text.foldlM step reader

/-- The expression that has been read, if it is complete. -/
def done? (reader : Reader) : Option Regex :=
  if reader.mode.isReady ∧ reader.outer.isEmpty then some reader.level.regex else none

end Reader

/-- Read an expression, in front of which a flag may stand that makes lines count. -/
def ofSource? (source : String) : Option (Bool × Regex) :=
  match source.toList with
  | '(' :: '?' :: 'm' :: ')' :: text => (({} : Reader).run text >>= Reader.done?).map (true, ·)
  | text => (({} : Reader).run text >>= Reader.done?).map (false, ·)

end Regex

end LogMotif
