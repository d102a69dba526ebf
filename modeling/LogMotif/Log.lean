import LogMotif.Config
import LogMotif.Corpus
import LogMotif.Files
import LogMotif.Filter
import LogMotif.Json.Message
import LogMotif.Text.Blank
import LogMotif.Text.Utf8
import LogMotif.Timestamp

/-! # Logs

A log is a table made from records, which are JSON objects: a list of them, or one on each line. Its
columns are all keys in the order of their first appearance, with the columns of coloring rules
behind them; a record has an empty cell where it has no value or null.
-/

namespace LogMotif

open Json

/-- A record: keys with their values, each key once. -/
abbrev LogRecord := List (String × Value)

/-- A table of text cells. -/
structure Log where
  headers : List Header
  rows : List (List String)
  /-- The columns that coloring rules compute. -/
  ruleColumns : List String
deriving DecidableEq, Repr

/-- Why a log, or a part of one, could not be had. -/
inductive LoadError where
  | unreadable (path : String) (cause : FileError)
  /-- The line that is at fault, or zero if the log is one list. -/
  | invalidJson (line : Nat) (cause : Fault)
  | rowOutOfRange (index rows : Nat)
  /-- A filter that keeps none of so many rows. -/
  | emptyFilter (text : String) (rows : Nat)
deriving DecidableEq, Repr

namespace LoadError

/-- The message of a load error. -/
def message : LoadError → String
  | unreadable path cause => "Cannot read " ++ path ++ ": " ++ cause.message
  | invalidJson line cause => "Invalid JSON at line " ++ toString line ++ ": " ++ cause.message
  | rowOutOfRange index rows => s!"Row selection {index} out of range ({rows} rows)"
  | emptyFilter text rows =>
    "Filter " ++ Text.quoted text ++ " matched none of " ++ toString rows ++ " rows"

/-- The message of what caused a load error. -/
def cause? : LoadError → Option String
  | unreadable _ cause => some cause.message
  | invalidJson _ cause => some cause.message
  | rowOutOfRange .. | emptyFilter .. => none

end LoadError

namespace LogRecord

/-- Read a record whose values may be nested to the given depth. -/
def read (depth : Nat) : Read LogRecord := do
  match ← Read.startOfValue with
  | some '{' =>
    return Value.lastWins (← Read.objectOf (Read.membersWith .strict (Read.value .strict depth)))
  | _ => Read.unexpected "a map"

/-- Read a list of records. -/
def readList : Read (List LogRecord) := do
  match ← Read.startOfValue with
  | some '[' => Read.listOf (Read.itemsToEnd (read (nestingLimit - 2)) true)
  | _ => Read.unexpected "a sequence"

/-- The record on a line of its own. -/
def ofLine (line : String) : Except Fault LogRecord := (read (nestingLimit - 1)).run line

end LogRecord

namespace Log

/-- The elements of a list, each at its first place only, behind those in `seen`. -/
def addNew (seen names : List String) : List String :=
  names.foldl (fun seen name => if name ∈ seen then seen else seen ++ [name]) seen

/-- The keys of some records, in the order of their first appearance. -/
def keys (records : List LogRecord) : List String :=
  addNew [] (records.flatMap fun record => record.map (·.1))

/-- Whether a value is a number. -/
def isNumber : Value → Bool
  | .number _ => true
  | _ => false

/-- Whether a key has a number in some record, and in every record a number, null or nothing. -/
def isNumeric (records : List LogRecord) (key : String) : Bool :=
  records.any (fun record => (record.lookup key).any isNumber) &&
    records.all fun record =>
      match record.lookup key with
      | none | some .null => true
      | some value => isNumber value

/-- The text of a cell. -/
def cellText : Option Value → String
  | none | some .null => ""
  | some (.string content) => content
  | some value => value.canonical.compact

/-- The table of some records. -/
def ofRecords (records : List LogRecord) (ruleColumns : List String) : Log :=
  let content := keys records
  let names := addNew content ruleColumns
  { headers := names.map fun name =>
      ⟨name, if name ∈ content ∧ isNumeric records name then .number else .string⟩
    rows := records.map fun record => names.map fun name => cellText (record.lookup name)
    ruleColumns := ruleColumns }

/-- The records on the lines of a text, with blank lines left out. -/
def recordsOfLines (content : List Char) : Except LoadError (List LogRecord) :=
  ((Text.lines content).zipIdx.filter fun (line, _) => !Text.isAllBlank line).mapM
    fun (line, i) =>
      (LogRecord.ofLine (String.ofList line)).mapError (LoadError.invalidJson (i + 1))

/-- The records in a text: those of a list, if the first character that is not blank opens one, or
else one on each line. -/
def recordsOfText (content : String) : Except LoadError (List LogRecord) :=
  if (Text.dropBlanks content.toList).head? = some '[' then
    (LogRecord.readList.run content).mapError (LoadError.invalidJson 0)
  else recordsOfLines content.toList

/-- The log in a text. -/
def ofText (content : String) (ruleColumns : List String) : Except LoadError Log :=
  (recordsOfText content).map (ofRecords · ruleColumns)

/-- The log in a file of UTF-8. Damaged characters are replaced. -/
def ofBytes (bytes : ByteArray) (ruleColumns : List String) : Except LoadError Log :=
  ofText (Text.decodeLossy bytes) ruleColumns

/-- The rows with the given numbers, in the order given. -/
def selectRows (log : Log) (indices : List Nat) : Except LoadError (List (List String)) :=
  indices.mapM fun index =>
    match log.rows[index]? with
    | some row => .ok row
    | none => .error (.rowOutOfRange index log.rows.length)

/-- The log with the rows of the given numbers only. -/
def retainRows (log : Log) (indices : List Nat) : Log :=
  { log with rows := indices.filterMap (log.rows[·]?) }

/-- The log with the rows only that contain a text in a column. A filter that keeps no row of a log
that has some is refused. -/
def filtered (log : Log) (column : FilterColumn) (text : String) : Except LoadError Log :=
  let kept := Filter.keptRows log.rows column text
  if kept.isEmpty ∧ ¬ log.rows.isEmpty then .error (.emptyFilter text log.rows.length)
  else .ok (log.retainRows kept)

/-- Whether two names differ in the case of ASCII letters at most. -/
def sameName (left right : String) : Bool :=
  left.toList.map Char.toLower == right.toList.map Char.toLower

/-- Whether a column holds times: by its name, or because the first values in it all look like
timestamps. -/
def isTimestampColumn (log : Log) (config : Config) (column : Nat) (header : Header) : Bool :=
  config.timestampColumns.any (sameName · header.name) ||
    (let samples := ((log.rows.filterMap (·[column]?)).filter (!·.isEmpty)).take
      config.timestampSampleRows
    !samples.isEmpty && samples.all Timestamp.looksLike)

/-- The role of each column. -/
def roles (log : Log) (config : Config) : List ColumnRole :=
  log.headers.zipIdx.map fun (header, column) =>
    if log.ruleColumns.contains header.name then .rule
    else if log.isTimestampColumn config column header then .timestamp
    else .content

/-- The searchable text of a log. -/
def corpus (log : Log) (roles : List ColumnRole) : Except MotifError Corpus :=
  Corpus.ofRows log.headers roles log.rows

end Log

end LogMotif
