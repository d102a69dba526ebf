import Std.Data.HashMap
import Std.Data.HashSet
import LogMotif.Matches
import LogMotif.Query

/-! # Searching a log

The search walks rows. Each entry first narrows the log to its candidates. From every candidate of
the first entry, those of the later entries are tried in ascending order inside the window
their link allows, with the texts captured so far in the place of bound wildcards. A state from
which no match can be completed is remembered, so that it is tried once only, and so is the line
pattern of an entry for the values it was built with. Every first row yields at most one match, the
one whose later rows come earliest.
-/

namespace LogMotif

namespace Search

/-- A row that an entry may match, with its line. -/
abbrev Candidate := Nat × String

/-- The candidates of an entry, in ascending order. -/
def candidates (corpus : Corpus) (template : EntryTemplate) : List Candidate :=
  (template.candidateRows corpus).filterMap fun row => (corpus.line? row).map (row, ·)

/-- An entry as the search sees it: its template, its candidates, and the link that leads to it. -/
structure Stage where
  template : EntryTemplate
  candidates : List Candidate
  link : Link

/-- Where the search stands: how many entries are left, the row before them, and what has been
captured. -/
abbrev State := Nat × Nat × Captures

/-- What the search remembers on its way through all first rows. -/
structure Memory where
  /-- The states from which no match can be completed. -/
  deadEnds : Std.HashSet State := ∅
  /-- The line patterns built so far, by the number of entries left and the bound values. -/
  patterns : Std.HashMap (Nat × List String) LinePattern := ∅

/-- The values of the bound wildcards of an entry, out of what has been captured. -/
def boundValues (template : EntryTemplate) (captures : Captures) : List String :=
  template.bound.map fun index => (captures.lookup index).getD ""

namespace Memory

/-- The line pattern of an entry for some bound values, built unless it is remembered. -/
def patternFor (memory : Memory) (left : Nat) (template : EntryTemplate) (values : List String) :
    LinePattern × Memory :=
  match memory.patterns[(left, values)]? with
  | some pattern => (pattern, memory)
  | none =>
    let pattern := template.linePattern values
    (pattern, { memory with patterns := memory.patterns.insert (left, values) pattern })

/-- Remember a state from which no match can be completed. -/
def markDead (memory : Memory) (state : State) : Memory :=
  { memory with deadEnds := memory.deadEnds.insert state }

end Memory

/-- Match an entry, counted with those behind it as `left`, on a line, and give back the captures
with those that the entry defines. A line whose matching exceeds its budget does not match. -/
def matchEntry (budget left : Nat) (template : EntryTemplate) (captures : Captures)
    (line : String) (memory : Memory) : Option Captures × Memory :=
  let (pattern, memory) := memory.patternFor left template (boundValues template captures)
  match pattern.attempt budget line with
  | .found taken => (some (captures ++ taken.filter (·.1 ∈ template.defined)), memory)
  | .failed _ | .exhausted => (none, memory)

/-- Try candidates in order until one succeeds, handing on what has been remembered. -/
def tryEach (step : Candidate → Memory → Option Match × Memory) :
    List Candidate → Memory → Option Match × Memory
  | [], memory => (none, memory)
  | candidate :: rest, memory =>
    match step candidate memory with
    | (some found, memory) => (some found, memory)
    | (none, memory) => tryEach step rest memory

/-- The candidates inside the window that a link allows behind a row. -/
def Stage.behind (stage : Stage) (previous : Nat) : List Candidate :=
  let (start, stop) := stage.link.window previous
  (stage.candidates.dropWhile (·.1 < start)).takeWhile (·.1 < stop)

/-- Match an entry on a candidate and, where it matches, the entries behind it with `next`. -/
def matchAt (budget left : Nat) (template : EntryTemplate) (captures : Captures)
    (next : Nat → Captures → Memory → Option Match × Memory) :
    Candidate → Memory → Option Match × Memory
  | (row, line), memory =>
    match matchEntry budget left template captures line memory with
    | (none, memory) => (none, memory)
    | (some extended, memory) =>
      let (rest, memory) := next row extended memory
      (rest.map (row :: ·), memory)

/-- The earliest rows for the remaining entries behind a row. -/
def complete (budget : Nat) :
    List Stage → Nat → Captures → Memory → Option Match × Memory
  | [], _, _, memory => (some [], memory)
  | stage :: stages, previous, captures, memory =>
    let state : State := (stages.length + 1, previous, captures)
    if memory.deadEnds.contains state then (none, memory)
    else
      let step := matchAt budget (stages.length + 1) stage.template captures
        (complete budget stages)
      match tryEach step (stage.behind previous) memory with
      | (some found, memory) => (some found, memory)
      | (none, memory) => (none, memory.markDead state)

/-- The matches that start at the given candidates. -/
def collect (step : Candidate → Memory → Option Match × Memory) :
    List Candidate → Memory → List Match
  | [], _ => []
  | candidate :: rest, memory =>
    let (found, memory) := step candidate memory
    found.toList ++ collect step rest memory

/-- The stages of the entries behind the first. -/
def stages (corpus : Corpus) (templates : List EntryTemplate) (links : List Link) : List Stage :=
  (templates.zip links).map fun (template, link) => ⟨template, candidates corpus template, link⟩

end Search

/-- All matches of a query in a log. A search has no failure. A line whose matching exceeds its
budget does not match, and the line patterns that are built on the way, with captured texts of any
length in them, are assumed to be accepted by the engine, as those of `Query.compile` are. -/
def Query.search (query : Query) (corpus : Corpus) : Matches :=
  match query.entries with
  | [] => ⟨[]⟩
  | first :: templates =>
    let stages := Search.stages corpus templates query.links
    let step := Search.matchAt query.budget (stages.length + 1) first []
      (Search.complete query.budget stages)
    ⟨Search.collect step (Search.candidates corpus first) {}⟩

end LogMotif
