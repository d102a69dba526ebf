import LogMotif.Pattern.Regex

/-! # Line patterns

A line pattern describes one line of the searchable text as a sequence of items: literal texts, JSON
strings of any content, and stretches of string content, which may be captured under a wildcard and
recalled later in the line. A match takes the whole line. Where several matches exist, the one found
is the one whose first stretch is shortest, then the second, and so on.
-/

namespace LogMotif

/-- One item of a line pattern. -/
inductive LineItem where
  | literal (content : String)
  /-- A JSON string of any content, with its quotes. -/
  | anyString
  /-- A stretch of string content that is not empty. -/
  | stretch
  /-- Such a stretch, captured under a wildcard. -/
  | capture (wildcard : Nat)
  /-- The text captured under a wildcard. -/
  | recalled (wildcard : Nat)
deriving DecidableEq, Repr

/-- A sequence of items that takes a whole line. -/
abbrev LinePattern := List LineItem

/-- The texts captured so far, in the order of the line. -/
abbrev Captures := List (Nat × String)

namespace LineItem

/-- The expression an item stands for. -/
def regex : LineItem → Regex
  | literal content => .literal content
  | anyString => .anyString
  | stretch => .stringValue
  | capture wildcard => .capture wildcard .stringValue
  | recalled wildcard => .recalled wildcard

/-- Whether an item recalls a captured text. -/
def isRecall : LineItem → Bool
  | recalled _ => true
  | _ => false

/-- Whether a character stands for itself inside a JSON string on one line. -/
def isPlain (c : Char) : Bool := c != '"' && c != '\\' && c != '\n'

/-- The ends of the stretches of string content at the front of a text that take at least one unit,
shortest first: how many characters are taken, beyond `taken`, and what is left. -/
def stretchEnds (taken : Nat) : List Char → List (Nat × List Char)
  | '\\' :: c :: rest =>
    if c = '\n' then [] else (taken + 2, rest) :: stretchEnds (taken + 2) rest
  | c :: rest => if isPlain c then (taken + 1, rest) :: stretchEnds (taken + 1) rest else []
  | [] => []

/-- What is left of a text behind as much string content as possible. -/
def skipContent : List Char → List Char
  | '\\' :: c :: rest => if c = '\n' then '\\' :: c :: rest else skipContent rest
  | c :: rest => if isPlain c then skipContent rest else c :: rest
  | [] => []

/-- What is left of a text behind the given characters, if it starts with them. -/
def behind? : List Char → List Char → Option (List Char)
  | [], text => some text
  | _ :: _, [] => none
  | c :: expected, d :: text => if c = d then behind? expected text else none

/-- What is left of a text behind a JSON string, if it starts with one. -/
def behindString? : List Char → Option (List Char)
  | '"' :: content =>
    match skipContent content with
    | '"' :: rest => some rest
    | _ => none
  | _ => none

/-- The ways in which an item can take the front of a text, in the order in which they are tried:
how many characters are taken, and what is left. -/
def ends (captures : Captures) (text : List Char) : LineItem → List (Nat × List Char)
  | literal content =>
    ((behind? content.toList text).map (content.length, ·)).toList
  | anyString => ((behindString? text).map fun rest => (text.length - rest.length, rest)).toList
  | stretch | capture _ => stretchEnds 0 text
  | recalled wildcard =>
    match captures.lookup wildcard with
    | some content => ((behind? content.toList text).map (content.length, ·)).toList
    | none => []

/-- The captures after an item has taken so many characters of a text. -/
def record (captures : Captures) (text : List Char) (taken : Nat) : LineItem → Captures
  | capture wildcard => captures ++ [(wildcard, String.ofList (text.take taken))]
  | _ => captures

end LineItem

namespace LinePattern

/-- The expression a line pattern stands for. -/
def regex (pattern : LinePattern) : Regex := Regex.concat (pattern.map LineItem.regex)

/-- Whether a pattern recalls a captured text. -/
def hasRecall (pattern : LinePattern) : Bool := pattern.any LineItem.isRecall

/-- The written form of a line pattern, anchored at both ends of the line. -/
def source (pattern : LinePattern) : String :=
  (Regex.concat [.lineStart, pattern.regex, .lineEnd]).source

/-- Match the rest of a line against the rest of a pattern, trying the ways of each item in order,
and give back all captures. -/
def matchFrom? : LinePattern → Captures → List Char → Option Captures
  | [], captures, [] => some captures
  | [], _, _ :: _ => none
  | item :: pattern, captures, text =>
    (item.ends captures text).findSome? fun (taken, rest) =>
      matchFrom? pattern (item.record captures text taken) rest

/-- Match a line and give back what was captured. -/
def match? (pattern : LinePattern) (line : String) : Option Captures :=
  matchFrom? pattern [] line.toList

end LinePattern

end LogMotif
