import LogMotif.Pattern.Threads

/-! # Matching within a budget

A pattern that recalls a captured text is matched by backtracking, and the matcher may go back to an
untried choice only so often. The choices are those of the written expression: behind each unit of a
string whether to take another, and for each unit whether it is a plain character or an escape. What
comes behind the last recalled text needs no going back: it either matches or not. Patterns that
recall nothing have no budget. A match found within the budget is the one that `matchFrom?` finds.
Captured texts are kept as pieces of the line until they are wanted.
-/

namespace LogMotif

/-- How an attempt to match ended. -/
inductive Outcome (α : Type) where
  | found (result : α)
  /-- There is no match; so much of the budget is left. -/
  | failed (left : Nat)
  /-- The budget did not suffice. -/
  | exhausted
deriving DecidableEq, Repr

/-- An attempt to match within a budget. -/
abbrev Attempt (α : Type) := Nat → Outcome α

namespace Attempt

/-- The attempt that fails at once. -/
def fail : Attempt α := .failed

/-- Try one way, and if it fails go back and try another. -/
def orElse (first second : Attempt α) : Attempt α := fun budget =>
  match first budget with
  | .failed 0 => .exhausted
  | .failed (left + 1) => second left
  | result => result

/-- The attempt whose result is known. -/
def ofOption : Option α → Attempt α
  | some result => fun _ => .found result
  | none => fail

/-- Go on if a text is left. -/
def andThen (text? : Option (List Char)) (next : List Char → Attempt α) : Attempt α :=
  match text? with
  | some text => next text
  | none => fail

/-- Take as many units of string content as possible, fewer if what follows does not match. -/
def greedyUnits (next : List Char → Attempt α) : List Char → Attempt α
  | '\\' :: c :: rest =>
    orElse (orElse fail (if c = '\n' then fail else greedyUnits next rest))
      (next ('\\' :: c :: rest))
  | c :: rest =>
    orElse (orElse (if LineItem.isPlain c then greedyUnits next rest else fail) fail)
      (next (c :: rest))
  | [] => orElse (orElse fail fail) (next [])

/-- Take one unit of string content, more if what follows does not match. -/
def frugalUnits (next : Nat → List Char → Attempt α) (taken : Nat) : List Char → Attempt α
  | '\\' :: c :: rest =>
    orElse fail
      (if c = '\n' then fail
      else orElse (next (taken + 2) rest) (frugalUnits next (taken + 2) rest))
  | c :: rest =>
    orElse
      (if LineItem.isPlain c then
        orElse (next (taken + 1) rest) (frugalUnits next (taken + 1) rest)
      else fail)
      fail
  | [] => orElse fail fail

end Attempt

/-- A piece at the front of a text. -/
structure Piece where
  text : List Char
  /-- How many characters of the text are in the piece. -/
  length : Nat

namespace Piece

/-- The characters of a piece. -/
def content (piece : Piece) : List Char := piece.text.take piece.length

/-- What is left of a text behind a piece, if it starts with one like it. -/
def behind? (piece : Piece) (text : List Char) : Option (List Char) :=
  go piece.length piece.text text
where
  /-- What is left of a text behind so many characters that are expected. -/
  go : Nat → List Char → List Char → Option (List Char)
    | 0, _, text => some text
    | _ + 1, [], text => some text
    | _ + 1, _ :: _, [] => none
    | count + 1, c :: expected, d :: text => if c = d then go count expected text else none

theorem behind?_eq_behind?_content (piece : Piece) (text : List Char) :
    piece.behind? text = LineItem.behind? piece.content text := by
  obtain ⟨expected, count⟩ := piece
  simp only [behind?, content]
  fun_induction behind?.go count expected text <;> simp_all [LineItem.behind?]

end Piece

/-- The pieces of a line captured so far, in its order. -/
abbrev Pieces := List (Nat × Piece)

/-- The texts of captured pieces. -/
def Pieces.captures (pieces : Pieces) : Captures :=
  pieces.map fun (wildcard, piece) => (wildcard, String.ofList piece.content)

namespace LinePattern

open Attempt LineItem

/-- Match the rest of a line against the rest of a pattern within a budget. -/
def attemptFrom : LinePattern → Pieces → List Char → Attempt Captures
  | [], pieces, text => ofOption (findFrom? [] (.mk fun _ => pieces.captures) text)
  | item :: pattern, pieces, text =>
    if hasRecall (item :: pattern) then
      match item with
      | .literal content => andThen (behind? content.toList text) (attemptFrom pattern pieces)
      | .anyString =>
        andThen (behind? ['"'] text) (greedyUnits fun rest =>
          andThen (behind? ['"'] rest) (attemptFrom pattern pieces))
      | .stretch => frugalUnits (fun _ rest => attemptFrom pattern pieces rest) 0 text
      | .capture wildcard =>
        frugalUnits (fun taken rest =>
          attemptFrom pattern (pieces ++ [(wildcard, ⟨text, taken⟩)]) rest) 0 text
      | .recalled wildcard =>
        andThen ((pieces.lookup wildcard).bind fun piece => piece.behind? text)
          (attemptFrom pattern pieces)
    else ofOption (findFrom? (item :: pattern) (.mk fun _ => pieces.captures) text)

/-- Match a line within a budget. -/
def attempt (pattern : LinePattern) (budget : Nat) (line : String) : Outcome Captures :=
  attemptFrom pattern [] line.toList budget

end LinePattern

end LogMotif
