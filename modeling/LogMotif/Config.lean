import LogMotif.Json.Decode
import LogMotif.Json.Reader
import LogMotif.Session

/-! # Configuration

The settings a user keeps in a file. A field that the file does not mention has its default, and so
has every field if the file cannot be read as a configuration. What is saved reads back unchanged.
-/

namespace LogMotif

open Json

/-- The settings of a user. -/
structure Config where
  /-- The names of columns that always hold times; their case does not matter. -/
  timestampColumns : List String := ["timestamp", "time"]
  /-- How many values of a column are looked at to see whether it holds times. -/
  timestampSampleRows : Nat := 20
  /-- The distance set when a link is switched to a bounded one. -/
  boundedLinkGap : Nat := 10
  /-- How often the matching of one line may go back. -/
  backtrackLimit : Nat := Query.defaultBudget
deriving DecidableEq, Repr

namespace Config

/-- The settings of a session under a configuration. -/
def sessionOptions (config : Config) : SessionOptions where
  boundedGap := config.boundedLinkGap
  budget := config.backtrackLimit

/-- Enter the value of a field. -/
def put (config : Config) (field : String) (value : Value) : Except Mismatch Config :=
  match field with
  | "timestamp_columns" =>
    value.toTexts.map fun names => { config with timestampColumns := names }
  | "timestamp_sample_rows" =>
    value.toNat.map fun count => { config with timestampSampleRows := count }
  | "bounded_link_gap" => value.toNat.map fun gap => { config with boundedLinkGap := gap }
  | "backtrack_limit" => value.toNat.map fun limit => { config with backtrackLimit := limit }
  | _ => .ok config

/-- The shape of a configuration in JSON. -/
def shape : RecordShape Config where
  name := "struct Config"
  fields := ["timestamp_columns", "timestamp_sample_rows", "bounded_link_gap", "backtrack_limit"]
  put := put

/-- The configuration that a value stands for. -/
def ofValue (value : Value) : Except Mismatch Config := do
  let (config, form) ← shape.read {} value
  shape.checkSurplus form
  return config

/-- Read a member of a configuration behind its key. The values of unknown keys are passed over. -/
def readMember (read : Config × List String) (key : String) : Read (Config × List String) := do
  Read.colon
  if key ∈ shape.fields then
    let value ← Read.value .strict (nestingLimit - 1)
    match shape.putMember read (key, value) with
    | .ok read => return read
    | .error detail => Read.mismatched detail
  else
    Read.ignored
    return read

/-- Read a configuration. -/
def read : Read Config := do
  match ← Read.startOfValue with
  | some '{' => return (← Read.objectOf (Read.membersToEnd .strict readMember ({}, []))).1
  | _ =>
    match ofValue (← Read.value .strict nestingLimit) with
    | .ok config => return config
    | .error detail => Read.mismatched detail

/-- The configuration in a text, or the default if there is none in it. -/
def ofText (text : String) : Config :=
  match read.run text with
  | .ok config => config
  | .error _ => {}

/-- The value that stands for a configuration. -/
def toValue (config : Config) : Value :=
  .object (shape.fields.zip
    [.ofStrings config.timestampColumns, .ofNat config.timestampSampleRows,
      .ofNat config.boundedLinkGap, .ofNat config.backtrackLimit])

/-- The text a configuration is saved as. -/
def toText (config : Config) : String := config.toValue.pretty

end Config

end LogMotif
