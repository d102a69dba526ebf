import LogMotif.Action
import LogMotif.Search

/-! # Sessions

A session is the state of one dialog: the columns of the log, the motif under construction, and the
results of the last search. A transition gives back the next session; where it is refused there is
none, so the session stays as it was. The roles of the columns are fixed when the session opens, and
every edit that changes the motif drops the results.
-/

namespace LogMotif

/-- The settings of a session. -/
structure SessionOptions where
  /-- The distance set when a link is switched to a bounded one. -/
  boundedGap : Nat := 10
  /-- How often the matching of one line may go back. -/
  budget : Nat := Query.defaultBudget
deriving DecidableEq, Repr

/-- The matches of a search and the place in their list. -/
structure Results where
  found : Matches
  cursor : Cursor
deriving DecidableEq, Repr

/-- The match the cursor is on. -/
def Results.currentMatch? (results : Results) : Option Match := do
  results.found.list[← results.cursor.current]?

/-- The state of one dialog. -/
structure Session where
  headers : List Header
  roles : List ColumnRole
  motif : Motif
  options : SessionOptions
  /-- The results of the last search, unless the motif has been edited since. -/
  results : Option Results
deriving DecidableEq, Repr

/-- The outcome of an action. -/
inductive Transition where
  | updated (session : Session)
  /-- The last entry was removed, which closes the dialog. -/
  | closed
deriving DecidableEq, Repr

namespace Session

/-- Open a session over selected log rows. -/
def start (headers : List Header) (roles : List ColumnRole) (rows : List (List String))
    (options : SessionOptions) : Except MotifError Session := do
  if headers.length ≠ roles.length then throw (.mismatchedRoles headers.length roles.length)
  if rows.isEmpty then throw (.outOfRange .selectedRow 0 0)
  Corpus.checkRows headers.length rows
  return { headers, roles, motif := .ofRows roles rows, options, results := none }

/-- The session with an edited motif, and without results. -/
def withMotif (session : Session) (motif : Motif) : Session :=
  { session with motif := motif, results := none }

/-- The session after an edit that may have found nothing to change. -/
def withEdit (session : Session) (edit : Option Motif) : Session :=
  edit.elim session session.withMotif

/-- Put a wildcard over a range of the shown text of a cell; a range that is no selection changes
nothing. -/
def editOverText (session : Session) (entry cell start stop : Nat)
    (edit : Selection → Except MotifError (Option Motif)) : Except MotifError Session := do
  match ← session.motif.select entry cell start stop with
  | some selection => return session.withEdit (← edit selection)
  | none => return session

/-- The outcome of an action, before the motif is checked. -/
def perform (session : Session) : Action → Except MotifError Transition
  | .appendRows rows => do
    Corpus.checkRows session.headers.length rows
    return .updated (session.withMotif (session.motif.appendRows session.roles rows))
  | .removeEntry entry => do
    match ← session.motif.removeEntry entry with
    | .remaining motif => return .updated (session.withMotif motif)
    | .emptied => return .closed
  | .toggleCell entry cell exclusive =>
    return .updated (session.withMotif
      (← session.motif.toggleCell session.roles entry cell exclusive))
  | .toggleLink entry =>
    return .updated (session.withMotif
      (← session.motif.toggleLink entry session.options.boundedGap))
  | .setLink entry link =>
    return .updated (session.withMotif (← session.motif.setLink entry link))
  | .createWildcard selection =>
    return .updated (session.withEdit (← session.motif.createWildcard selection))
  | .useWildcard wildcard selection =>
    return .updated (session.withEdit (← session.motif.useWildcard wildcard selection))
  | .createWildcardOverText entry cell start stop =>
    return .updated (← session.editOverText entry cell start stop session.motif.createWildcard)
  | .useWildcardOverText wildcard entry cell start stop =>
    return .updated
      (← session.editOverText entry cell start stop (session.motif.useWildcard wildcard))
  | .removeWildcard entry cell segment =>
    return .updated (session.withEdit (← session.motif.removeWildcard entry cell segment))

/-- The outcome of an action. A motif whose cells and wildcards disagree is refused. -/
def apply (session : Session) (action : Action) : Except MotifError Transition := do
  match ← session.perform action with
  | .closed => return .closed
  | .updated next =>
    next.motif.checkConsistency
    return .updated next

/-- Compile the motif. -/
def compile (session : Session) : Except MotifError Query :=
  Query.compile session.headers session.roles session.motif session.options.budget

/-- Search a log for the motif, with the cursor on the first match. -/
def search (session : Session) (corpus : Corpus) : Except MotifError Session := do
  let query ← session.compile
  let found := query.search corpus
  return { session with results := some ⟨found, .start found.count⟩ }

/-- Move the cursor, if there are results. -/
def moveCursor (session : Session) (step : Cursor → Cursor) : Session :=
  { session with
    results := session.results.map fun results => { results with cursor := step results.cursor } }

/-- Go to the next match. -/
def nextMatch (session : Session) : Session := session.moveCursor Cursor.next

/-- Go to the previous match. -/
def previousMatch (session : Session) : Session := session.moveCursor Cursor.previous

/-- Go so many matches forward, or backward if the number is negative. -/
def step (session : Session) (steps : Int) : Session :=
  Nat.repeat (if 0 < steps then nextMatch else previousMatch) steps.natAbs session

end Session

end LogMotif
