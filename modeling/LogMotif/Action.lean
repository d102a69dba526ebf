import LogMotif.Json.Decode
import LogMotif.Motif

/-! # Actions

An action is one edit a user makes to a motif. As JSON it is an object whose member `action` names
the kind of edit and whose other members are the fields of that kind, or an array that begins with
the name and goes on with the fields in their order.
-/

namespace LogMotif

/-- An edit of a motif. -/
inductive Action where
  /-- Add log rows that were selected later. -/
  | appendRows (rows : List (List String))
  | removeEntry (entry : Nat)
  | toggleCell (entry cell : Nat) (exclusive : Bool)
  | toggleLink (entry : Nat)
  | setLink (entry : Nat) (link : Link)
  | createWildcard (selection : Selection)
  | useWildcard (wildcard : Nat) (selection : Selection)
  /-- Create a wildcard over a range of the shown text of a cell. -/
  | createWildcardOverText (entry cell start stop : Nat)
  /-- Use a wildcard over a range of the shown text of a cell. -/
  | useWildcardOverText (wildcard entry cell start stop : Nat)
  | removeWildcard (entry cell segment : Nat)
deriving DecidableEq, Repr

open Json

namespace Link

/-- The names of the links in JSON. -/
def names : List String := ["any", "exactly", "at_most"]

/-- The link with the given name, and the value that goes with the name, if any. -/
def ofName (name : String) (value? : Option Value) : Except Mismatch Link :=
  let distance : Except Mismatch Nat :=
    match value? with
    | none => .error (.wrongType .unitVariant "newtype variant")
    | some value => value.toNat
  match name with
  | "any" =>
    match value? with
    | none | some .null | some (.object []) => .ok .any
    | some other => .error (.wrongType other.found "unit")
  | "exactly" => distance.map .exactly
  | "at_most" => distance.map .atMost
  | other => .error (.unknownVariant other names)

/-- The link that a value stands for: a name, or an object with the name as its only key. -/
def ofValue : Value → Except Mismatch Link
  | .string name => ofName name none
  | .object [(name, value)] => ofName name (some value)
  | .object _ => .error (.wrongValue .map "map with a single key")
  | other => .error (.wrongType other.found "string or map")

/-- The value that stands for a link. -/
def toValue : Link → Value
  | any => .string "any"
  | exactly rows => .object [("exactly", .ofNat rows)]
  | atMost rows => .object [("at_most", .ofNat rows)]

end Link

namespace Selection

/-- The names of the fields of a selection in JSON. -/
def fields : List String := ["entry_index", "cell_index", "contents_index", "start", "end"]

/-- The selection that a value stands for. -/
def ofValue (value : Value) : Except Mismatch Selection := do
  match ← toNats "struct CellSelection" fields value with
  | [entry, cell, segment, start, stop] => return ⟨entry, cell, segment, start, stop⟩
  | numbers => throw (.wrongLength numbers.length "struct CellSelection")

/-- The value that stands for a selection. -/
def toValue (selection : Selection) : Value :=
  .object (fields.zip
    [.ofNat selection.entry, .ofNat selection.cell, .ofNat selection.range.segment,
      .ofNat selection.range.start, .ofNat selection.range.stop])

end Selection

namespace Action

/-- The kinds of actions. -/
inductive Kind where
  | appendRows
  | removeEntry
  | toggleCell
  | toggleLink
  | setLink
  | createWildcard
  | useWildcard
  | createWildcardOverText
  | useWildcardOverText
  | removeWildcard
deriving DecidableEq, Repr

namespace Kind

/-- All kinds, in the order in which messages list them. -/
def all : List Kind :=
  [appendRows, removeEntry, toggleCell, toggleLink, setLink, createWildcard, useWildcard,
    createWildcardOverText, useWildcardOverText, removeWildcard]

/-- The name of a kind in JSON. -/
def name : Kind → String
  | appendRows => "append_rows"
  | removeEntry => "remove_entry"
  | toggleCell => "toggle_cell"
  | toggleLink => "toggle_link"
  | setLink => "set_link"
  | createWildcard => "create_wildcard"
  | useWildcard => "use_wildcard"
  | createWildcardOverText => "create_wildcard_over_text"
  | useWildcardOverText => "use_wildcard_over_text"
  | removeWildcard => "remove_wildcard"

/-- The name of a kind in messages. -/
def title : Kind → String
  | appendRows => "AppendRows"
  | removeEntry => "RemoveEntry"
  | toggleCell => "ToggleCell"
  | toggleLink => "ToggleLink"
  | setLink => "SetLink"
  | createWildcard => "CreateWildcard"
  | useWildcard => "UseWildcard"
  | createWildcardOverText => "CreateWildcardOverText"
  | useWildcardOverText => "UseWildcardOverText"
  | removeWildcard => "RemoveWildcard"

/-- The fields of a kind, in their order. -/
def fields : Kind → List String
  | appendRows => ["rows"]
  | removeEntry => ["entry"]
  | toggleCell => ["entry", "cell", "exclusive"]
  | toggleLink => ["entry"]
  | setLink => ["entry", "distance"]
  | createWildcard => ["selection"]
  | useWildcard => ["wildcard", "selection"]
  | createWildcardOverText => ["entry", "cell", "start", "end"]
  | useWildcardOverText => ["wildcard", "entry", "cell", "start", "end"]
  | removeWildcard => ["entry", "cell", "contents"]

/-- The kind with the given name. -/
def ofName (name : String) : Except Mismatch Kind :=
  match all.find? (·.name == name) with
  | some kind => .ok kind
  | none => .error (.unknownVariant name (all.map Kind.name))

end Kind

/-- The fields of an action that have been read so far. -/
structure Draft where
  rows : Option (List (List String)) := none
  link : Option Link := none
  selection : Option Selection := none
  exclusive : Option Bool := none
  /-- The fields that are natural numbers, by name. -/
  numbers : List (String × Nat) := []

/-- Enter the value of a field into a draft. A field has the same type in every kind of action. -/
def Draft.put (draft : Draft) (field : String) (value : Value) : Except Mismatch Draft :=
  match field with
  | "rows" => value.toRows.map fun rows => { draft with rows := some rows }
  | "distance" => (Link.ofValue value).map fun link => { draft with link := some link }
  | "selection" =>
    (Selection.ofValue value).map fun selection => { draft with selection := some selection }
  | "exclusive" => value.toBool.map fun exclusive => { draft with exclusive := some exclusive }
  | other => value.toNat.map fun n => { draft with numbers := (other, n) :: draft.numbers }

/-- The shape of the actions of one kind. -/
def Kind.shape (kind : Kind) : RecordShape Draft where
  name := "struct variant StructureAction::" ++ kind.title
  fields := kind.fields
  put := Draft.put

/-- The action of a kind, once all of its fields have been read. -/
def Draft.finish (draft : Draft) (kind : Kind) (form : RecordForm) : Except Mismatch Action := do
  let number (name : String) : Except Mismatch Nat :=
    kind.shape.require form name (draft.numbers.lookup name)
  let selection : Except Mismatch Selection :=
    kind.shape.require form "selection" draft.selection
  match kind with
  | .appendRows => return .appendRows (← kind.shape.require form "rows" draft.rows)
  | .removeEntry => return .removeEntry (← number "entry")
  | .toggleCell =>
    return .toggleCell (← number "entry") (← number "cell") (draft.exclusive.getD false)
  | .toggleLink => return .toggleLink (← number "entry")
  | .setLink =>
    return .setLink (← number "entry") (← kind.shape.require form "distance" draft.link)
  | .createWildcard => return .createWildcard (← selection)
  | .useWildcard => return .useWildcard (← number "wildcard") (← selection)
  | .createWildcardOverText =>
    return .createWildcardOverText (← number "entry") (← number "cell") (← number "start")
      (← number "end")
  | .useWildcardOverText =>
    return .useWildcardOverText (← number "wildcard") (← number "entry") (← number "cell")
      (← number "start") (← number "end")
  | .removeWildcard =>
    return .removeWildcard (← number "entry") (← number "cell") (← number "contents")

/-- The action of a kind whose fields are in the given value. -/
def ofFields (kind : Kind) (content : Value) : Except Mismatch Action := do
  let (draft, form) ← kind.shape.read {} content
  let action ← draft.finish kind form
  kind.shape.checkSurplus form
  return action

/-- What an action should have been. -/
def expectation : String := "internally tagged enum StructureAction"

/-- The kind that a value names. -/
def kindOfValue : Value → Except Mismatch Kind
  | .string name => Kind.ofName name
  | other => .error (.wrongType other.found "variant identifier")

/-- The action that a value stands for. -/
def ofValue : Value → Except Mismatch Action
  | .object members =>
    match members.filter (·.1 == "action") with
    | [] => .error (.missingField "action")
    | [(_, tag)] => do ofFields (← kindOfValue tag) (.object (members.filter (·.1 != "action")))
    | _ => .error (.repeatedField "action")
  | .array [] => .error (.missingField "action")
  | .array (tag :: fields) => do ofFields (← kindOfValue tag) (.array fields)
  | other => .error (.wrongType other.found expectation)

/-- The kind of an action. -/
def kind : Action → Kind
  | appendRows .. => .appendRows
  | removeEntry .. => .removeEntry
  | toggleCell .. => .toggleCell
  | toggleLink .. => .toggleLink
  | setLink .. => .setLink
  | createWildcard .. => .createWildcard
  | useWildcard .. => .useWildcard
  | createWildcardOverText .. => .createWildcardOverText
  | useWildcardOverText .. => .useWildcardOverText
  | removeWildcard .. => .removeWildcard

/-- The values of the fields of an action, in their order. -/
def fieldValues : Action → List Value
  | appendRows rows => [.array (rows.map .ofStrings)]
  | removeEntry entry => [.ofNat entry]
  | toggleCell entry cell exclusive => [.ofNat entry, .ofNat cell, .bool exclusive]
  | toggleLink entry => [.ofNat entry]
  | setLink entry link => [.ofNat entry, link.toValue]
  | createWildcard selection => [selection.toValue]
  | useWildcard wildcard selection => [.ofNat wildcard, selection.toValue]
  | createWildcardOverText entry cell start stop =>
    [.ofNat entry, .ofNat cell, .ofNat start, .ofNat stop]
  | useWildcardOverText wildcard entry cell start stop =>
    [.ofNat wildcard, .ofNat entry, .ofNat cell, .ofNat start, .ofNat stop]
  | removeWildcard entry cell segment => [.ofNat entry, .ofNat cell, .ofNat segment]

/-- The value that stands for an action. -/
def toValue (action : Action) : Value :=
  .object (("action", .string action.kind.name) :: action.kind.fields.zip action.fieldValues)

end Action

end LogMotif
