import LogMotif.Corpus
import LogMotif.Motif
import LogMotif.Pattern.Budget

/-! # Queries

A motif is compiled into one line template per entry. A selected cell stands for its text as JSON
writes it, any other cell for an arbitrary JSON string. The first active occurrence of a wildcard
captures its text; later occurrences in the same line recall it, and in the lines of later entries
the captured text is put in its place. The links between entries bound the distances of their rows;
the search sees to them.
-/

namespace LogMotif

/-- One item of the template of a line. -/
inductive TemplateItem where
  | literal (content : String)
  /-- The string of a cell that is not selected. -/
  | anyString
  | wildcard (index : Nat)
deriving DecidableEq, Repr

/-- The template of the line of one entry. -/
structure EntryTemplate where
  items : List TemplateItem
  /-- The wildcards captured by an earlier entry. -/
  bound : List Nat
  /-- The wildcards captured by this entry. -/
  defined : List Nat
deriving DecidableEq, Repr

namespace TemplateItem

/-- The template of the content of a selected cell. -/
def ofSegment : Segment → TemplateItem
  | .text content => literal (Json.escapeText content)
  | .wildcard index _ => wildcard index

/-- The template of the string of a cell. -/
def ofCell (selected : Bool) (cell : Cell) : List TemplateItem :=
  if selected then literal "\"" :: cell.segments.map ofSegment ++ [literal "\""] else [anyString]

/-- The template of the members of a line, with a comma in front of all but the first. -/
def ofMembers (isFirst : Bool) : List (Header × ColumnRole × Cell × Bool) → List TemplateItem
  | [] => []
  | (header, role, cell, selected) :: rest =>
    if role.inCorpus then
      literal ((if isFirst then "" else ",") ++ Json.quote header.name ++ ":") ::
        (ofCell selected cell ++ ofMembers false rest)
    else ofMembers isFirst rest

/-- The template of the line of an entry. -/
def ofEntry (headers : List Header) (roles : List ColumnRole) (entry : Entry) :
    List TemplateItem :=
  literal "\x7b" :: (ofMembers true (headers.zip (roles.zip (entry.cells.zip entry.selection)))
    ++ [literal "\x7d"])

/-- The wildcard of a template item, if it is one. -/
def wildcard? : TemplateItem → Option Nat
  | wildcard index => some index
  | _ => none

/-- The wildcards that are active in a template, each once, in order of first occurrence. -/
def active (items : List TemplateItem) : List Nat :=
  (items.filterMap wildcard?).foldl
    (fun found index => if index ∈ found then found else found ++ [index]) []

/-- The line pattern of a template in which wildcards with a value stand for that value. Of the
others, the first occurrence that is not yet in `seen` captures, and the rest recall. -/
def instantiate (value? : Nat → Option String) (seen : List Nat) :
    List TemplateItem → LinePattern × List Nat
  | [] => ([], seen)
  | literal content :: rest =>
    let (pattern, seen) := instantiate value? seen rest
    (.literal content :: pattern, seen)
  | anyString :: rest =>
    let (pattern, seen) := instantiate value? seen rest
    (.anyString :: pattern, seen)
  | wildcard index :: rest =>
    match value? index with
    | some content =>
      let (pattern, seen) := instantiate value? seen rest
      (.literal content :: pattern, seen)
    | none =>
      if index ∈ seen then
        let (pattern, seen) := instantiate value? seen rest
        (.recalled index :: pattern, seen)
      else
        let (pattern, seen) := instantiate value? (index :: seen) rest
        (.capture index :: pattern, seen)

/-- The item that stands for any text a template item may take. -/
def generalize : TemplateItem → LineItem
  | literal content => .literal content
  | anyString => .anyString
  | wildcard _ => .stretch

end TemplateItem

namespace EntryTemplate

/-- The template of an entry behind entries that have captured the wildcards in `captured`. -/
def ofItems (captured : List Nat) (items : List TemplateItem) : EntryTemplate :=
  let active := TemplateItem.active items
  { items := items
    bound := active.filter (· ∈ captured)
    defined := active.filter (· ∉ captured) }

/-- The value of a bound wildcard in a list of values for the bound wildcards. -/
def boundValue? (template : EntryTemplate) (values : List String) (index : Nat) :
    Option String := do
  values[← template.bound.idxOf? index]?

/-- The line pattern of an entry once the bound wildcards have the given values. -/
def linePattern (template : EntryTemplate) (values : List String) : LinePattern :=
  (TemplateItem.instantiate (template.boundValue? values) [] template.items).1

/-- The line pattern in which each occurrence of a wildcard may stand for any text. -/
def prefilter (template : EntryTemplate) : LinePattern :=
  template.items.map TemplateItem.generalize

/-- The rows whose line could match the entry for some texts of its wildcards. -/
def candidateRows (template : EntryTemplate) (corpus : Corpus) : List Nat :=
  (List.range corpus.rowCount).filter fun row =>
    (corpus.line? row).any fun line => (template.prefilter.find? line).isSome

end EntryTemplate

/-- A compiled motif. -/
structure Query where
  entries : List EntryTemplate
  /-- The link from each entry but the last to the next. -/
  links : List Link
  wildcardCount : Nat
  /-- How often the matching of one line may go back. -/
  budget : Nat
deriving DecidableEq, Repr

namespace Query

/-- The budget for the matching of one line, unless another is set. -/
def defaultBudget : Nat := 1000000

/-- The templates of the lines of entries behind entries that have captured some wildcards. -/
def templates (headers : List Header) (roles : List ColumnRole) (captured : List Nat) :
    List Entry → List EntryTemplate
  | [] => []
  | entry :: rest =>
    let template := EntryTemplate.ofItems captured (TemplateItem.ofEntry headers roles entry)
    template :: templates headers roles (captured ++ template.defined) rest

/-- Refuse entries that do not have one cell per column, naming the first. -/
def checkEntries (width : Nat) (entries : List Entry) : Except MotifError Unit :=
  match entries.zipIdx.find? fun (entry, _) => entry.cells.length != width with
  | none => .ok ()
  | some (entry, i) => .error (.mismatchedRow i width entry.cells.length)

/-- Compile a motif. It is refused when the roles do not cover the headers, when it is empty, when
an entry does not have one cell per column, and when its cells and wildcards disagree. The patterns
that are made from it are never refused: an engine is assumed to accept each pattern that is well
formed, without a limit on its compiled size. -/
def compile (headers : List Header) (roles : List ColumnRole) (motif : Motif)
    (budget : Nat) : Except MotifError Query := do
  if headers.length ≠ roles.length then throw (.mismatchedRoles headers.length roles.length)
  if motif.entries.isEmpty then throw (.outOfRange .entry 0 0)
  checkEntries headers.length motif.entries
  motif.checkConsistency
  return {
    entries := templates headers roles [] motif.entries
    links := motif.entries.dropLast.map fun entry => entry.link.getD .any
    wildcardCount := motif.wildcards.length
    budget := budget }

/-- The number of entries, which is the length of every match. -/
def entryCount (query : Query) : Nat := query.entries.length

/-- The rows that may lie between two linked rows, as an expression. -/
def gap : Link → Regex
  | .any => .repeated .anyLine .zeroOrMore .frugal
  | .exactly rows =>
    if 1 < rows then .repeated .anyLine (.exactly (rows - 1)) .greedy else .empty
  | .atMost rows => if 1 < rows then .repeated .anyLine (.upTo (rows - 1)) .frugal else .empty

/-- The lines of the entries as one expression, behind lines that have captured the wildcards in
`seen`. -/
def linesRegex (seen : List Nat) : List EntryTemplate → List Link → Regex
  | [], _ => .empty
  | template :: templates, links =>
    let (pattern, seen) := TemplateItem.instantiate (fun _ => none) seen template.items
    let between := (links.head?).elim .empty gap
    .append pattern.regex
      (.append .lineFeed (.append between (linesRegex seen templates links.tail)))

/-- The whole motif as one expression over many lines. -/
def regex (query : Query) : Regex := linesRegex [] query.entries query.links

/-- The whole motif as one expression over many lines, as it is shown. -/
def source (query : Query) : String := "(?m)" ++ (Regex.append .lineStart query.regex).source

/-- The line pattern of an entry once its bound wildcards have the given values. -/
def linePattern (query : Query) (entry : Nat) (values : List String) :
    Except MotifError LinePattern :=
  match query.entries[entry]? with
  | some template => .ok (template.linePattern values)
  | none => .error (.outOfRange .entry entry query.entries.length)

end Query

end LogMotif
