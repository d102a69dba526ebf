/-! # Regular expressions

The expressions a motif is shown as. Their operands are texts, character classes and named captures;
an expression is written in the customary notation, with every operator character of a literal text
behind a backslash, so a literal text never acts as an operator.
-/

namespace LogMotif

/-- How often an operand is repeated. -/
inductive Repetition where
  | zeroOrMore
  | oneOrMore
  | exactly (times : Nat)
  | upTo (times : Nat)
deriving DecidableEq, Repr

/-- Whether a repetition takes as much as it can, or as little. -/
inductive Appetite where
  | greedy
  | frugal
deriving DecidableEq, Repr

/-- A regular expression. Captures are named after wildcards. -/
inductive Regex where
  | empty
  | literal (content : String)
  | lineFeed
  | noneOf (excluded : List Char)
  /-- Any character but a line feed. -/
  | anyInLine
  | append (first second : Regex)
  | either (first second : Regex)
  | repeated (operand : Regex) (repetition : Repetition) (appetite : Appetite)
  | capture (wildcard : Nat) (operand : Regex)
  /-- The text that the capture of a wildcard has taken. -/
  | recalled (wildcard : Nat)
  | lineStart
  | lineEnd
deriving DecidableEq, Repr

namespace Regex

/-- The characters that act as operators. -/
def operators : List Char :=
  ['\\', '.', '+', '*', '?', '(', ')', '|', '[', ']', '{', '}', '^', '$', '#']

/-- A text written so that it stands for itself. -/
def escapeText (content : String) : String :=
  String.ofList (content.toList.flatMap fun c => if c ∈ operators then ['\\', c] else [c])

/-- A character as it is written inside a class. -/
def classChar (c : Char) : String :=
  if c = '\n' then "\\n" else if c = '\\' then "\\\\" else String.singleton c

/-- The name of the capture of a wildcard. -/
def captureName (wildcard : Nat) : String := "w" ++ toString wildcard

/-- The suffix that stands for a repetition. -/
def repetitionSuffix : Repetition → String
  | .zeroOrMore => "*"
  | .oneOrMore => "+"
  | .exactly times => "\x7b" ++ toString times ++ "\x7d"
  | .upTo times => "\x7b0," ++ toString times ++ "\x7d"

/-- Put a written expression in brackets that capture nothing. -/
def bracket (written : String) : String := "(?:" ++ written ++ ")"

/-- Put an alternative in brackets where it is a part of a sequence. -/
def bracketAlternative (regex : Regex) (written : String) : String :=
  match regex with
  | either .. => bracket written
  | _ => written

/-- Put an operand of a repetition in brackets unless it is a class. -/
def bracketOperand (regex : Regex) (written : String) : String :=
  match regex with
  | noneOf .. => written
  | _ => bracket written

/-- The written form of an expression. -/
def source : Regex → String
  | empty => ""
  | literal content => escapeText content
  | lineFeed => "\\n"
  | noneOf excluded => "[^" ++ String.join (excluded.map classChar) ++ "]"
  | anyInLine => "."
  | append first second =>
    bracketAlternative first first.source ++ bracketAlternative second second.source
  | either first second => first.source ++ "|" ++ second.source
  | repeated operand repetition appetite =>
    bracketOperand operand operand.source ++ repetitionSuffix repetition
      ++ (match appetite with | .greedy => "" | .frugal => "?")
  | capture wildcard operand => "(?P<" ++ captureName wildcard ++ ">" ++ operand.source ++ ")"
  | recalled wildcard => "\\k<" ++ captureName wildcard ++ ">"
  | lineStart => "^"
  | lineEnd => "$"

/-- Expressions one after the other. -/
def concat (parts : List Regex) : Regex := parts.foldr append empty

/-- One unit of the content of a JSON string: a character that stands for itself, or a backslash and
the character behind it. -/
def stringUnit : Regex := either (noneOf ['"', '\\', '\n']) (append (literal "\\") anyInLine)

/-- Any JSON string. -/
def anyString : Regex :=
  concat [literal "\"", repeated stringUnit .zeroOrMore .greedy, literal "\""]

/-- A stretch of the content of a JSON string, as short as possible but not empty. -/
def stringValue : Regex := repeated stringUnit .oneOrMore .frugal

/-- Any complete line. -/
def anyLine : Regex := append (repeated (noneOf ['\n']) .zeroOrMore .greedy) lineFeed

end Regex

end LogMotif
