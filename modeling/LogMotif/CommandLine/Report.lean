import LogMotif.Log

/-! # What the command line prints

The report of a search, as JSON with one item a line, and the message of a failure with the causes
behind it, each indented.
-/

namespace LogMotif.CommandLine

open Json

/-- Why the command failed: a message and the messages of its causes, the nearest first. -/
structure Failure where
  message : String
  causes : List String := []
deriving DecidableEq, Repr

namespace Failure

/-- A failure of the matching core. -/
def ofMotifError (error : MotifError) : Failure := { message := error.message }

/-- A failure to load a log. -/
def ofLoadError (error : LoadError) : Failure :=
  { message := error.message, causes := error.cause?.toList }

/-- A failure seen from outside: `context` comes first and the failure is its cause. -/
def within (context : String) (failure : Failure) : Failure :=
  { message := context, causes := failure.message :: failure.causes }

/-- A text behind a label, with further lines indented as far. -/
def indent (label margin text : String) : String :=
  label ++ String.intercalate ("\n" ++ margin) (text.splitOn "\n")

/-- The causes as they are printed; they are numbered if there are several. -/
def causeLines (causes : List String) : List String :=
  match causes with
  | [cause] => [indent "    " "    " cause]
  | causes => causes.zipIdx.map fun (cause, i) =>
    let number := toString i
    indent ("".pushn ' ' (5 - number.length) ++ number ++ ": ") "       " cause

/-- The text printed for a failure. -/
def text (failure : Failure) : String :=
  let causes :=
    if failure.causes.isEmpty then ""
    else "\n\nCaused by:\n" ++ String.intercalate "\n" (causeLines failure.causes)
  "Error: " ++ failure.message ++ causes ++ "\n"

end Failure

/-- The matches of a search as JSON. -/
def matchesValue (found : Matches) : Value :=
  .object [("matches", .array (found.list.map .ofNats)), ("rows", .ofNats found.rows)]

/-- The report of a search. -/
def report (query : Query) (session : Session) : Value :=
  let found := session.results.elim ⟨[]⟩ Results.found
  .object
    [("pattern", .string query.source),
      ("entries", .array (session.motif.entries.map fun entry =>
        .ofStrings (entry.cells.map Cell.rendered))),
      ("matches", matchesValue found),
      ("current", .ofOption .ofNat (session.results.bind (·.cursor.current))),
      ("current_match", .ofOption .ofNats (session.results.bind (·.currentMatch?)))]

end LogMotif.CommandLine
