import LogMotif.Json.Value
import LogMotif.Json.Fault

/-! # Values of a known shape

Taking numbers, texts, lists and records out of JSON values. A record is an object with the names of
its fields as keys, in any order and with other keys ignored, or an array of its fields in their
order. The first thing that does not fit is the mismatch reported.
-/

namespace LogMotif.Json.Value

/-- The natural number in a value. -/
def toNat : Value → Except Mismatch Nat
  | number (.integer value) =>
    if 0 ≤ value then .ok value.toNat
    else .error (.wrongValue (.number (.integer value)) "usize")
  | other => .error (.wrongType other.found "usize")

/-- The truth value in a value. -/
def toBool : Value → Except Mismatch Bool
  | bool value => .ok value
  | other => .error (.wrongType other.found "a boolean")

/-- The text in a value. -/
def toText : Value → Except Mismatch String
  | string value => .ok value
  | other => .error (.wrongType other.found "a string")

/-- The list in a value. -/
def toList (item : Value → Except Mismatch α) : Value → Except Mismatch (List α)
  | array items => items.mapM item
  | other => .error (.wrongType other.found "a sequence")

/-- The list of texts in a value. -/
def toTexts : Value → Except Mismatch (List String) := toList toText

/-- The list of log rows in a value. -/
def toRows : Value → Except Mismatch (List (List String)) := toList toTexts

end LogMotif.Json.Value

namespace LogMotif.Json

/-- How a record was written. -/
inductive RecordForm where
  | map
  | sequence (length : Nat)
deriving DecidableEq, Repr

/-- So many elements, in words. -/
def elements (count : Nat) : String :=
  if count = 1 then "1 element" else toString count ++ " elements"

/-- The shape of a record: what it is called, its fields in their order, and how the value of a
field enters what has been read so far. -/
structure RecordShape (σ : Type) where
  name : String
  fields : List String
  put : σ → String → Value → Except Mismatch σ

namespace RecordShape

/-- Take in a member of a record written as an object. -/
def putMember (shape : RecordShape σ) (read : σ × List String) (member : String × Value) :
    Except Mismatch (σ × List String) :=
  let (state, seen) := read
  let (key, value) := member
  if key ∈ shape.fields then
    if key ∈ seen then .error (.repeatedField key)
    else (shape.put state key value).map (·, key :: seen)
  else .ok read

/-- Take in the fields of a record, in the order in which they were written. -/
def read (shape : RecordShape σ) (initial : σ) : Value → Except Mismatch (σ × RecordForm)
  | .object members =>
    (members.foldlM shape.putMember (initial, [])).map fun (state, _) => (state, .map)
  | .array items => do
    let state ← (shape.fields.zip items).foldlM
      (fun state (name, value) => shape.put state name value) initial
    return (state, .sequence items.length)
  | other => .error (.wrongType other.found shape.name)

/-- The value of a field, or the mismatch that it is missing. -/
def require (shape : RecordShape σ) (form : RecordForm) (name : String) :
    Option α → Except Mismatch α
  | some value => .ok value
  | none =>
    match form with
    | .map => .error (.missingField name)
    | .sequence length =>
      .error (.wrongLength length (shape.name ++ " with " ++ elements shape.fields.length))

/-- Refuse a record written with more elements than it has fields. -/
def checkSurplus (shape : RecordShape σ) : RecordForm → Except Mismatch Unit
  | .map => .ok ()
  | .sequence length =>
    if length ≤ shape.fields.length then .ok ()
    else .error (.wrongLength length (elements shape.fields.length ++ " in sequence"))

end RecordShape

/-- A record whose fields are all natural numbers, in the order of its fields. -/
def toNats (name : String) (fields : List String) (value : Value) :
    Except Mismatch (List Nat) := do
  let shape : RecordShape (List (String × Nat)) :=
    { name := name
      fields := fields
      put := fun read field value => do return (field, ← value.toNat) :: read }
  let (read, form) ← shape.read [] value
  let numbers ← fields.mapM fun field => shape.require form field (read.lookup field)
  shape.checkSurplus form
  return numbers

end LogMotif.Json
