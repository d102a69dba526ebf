import LogMotif.Json.Value

/-! # Faults in JSON texts

What is wrong with a text that cannot be read, either as JSON or as JSON of the expected shape, and
where. Lines count from one, and columns count the bytes of UTF-8 from the start of the line.
-/

namespace LogMotif.Json

/-- What was found where something else was expected. -/
inductive Found where
  | null
  | bool (value : Bool)
  | number (value : Number)
  | string (value : String)
  | sequence
  | map
  /-- A bare name where a name with a value was expected. -/
  | unitVariant
deriving DecidableEq, Repr

/-- The kind of a value, with its content if it is a scalar. -/
def Value.found : Value → Found
  | null => .null
  | bool value => .bool value
  | number value => .number value
  | string value => .string value
  | array _ => .sequence
  | object _ => .map

/-- A value that is JSON, but not of the expected shape. -/
inductive Mismatch where
  | wrongType (found : Found) (expected : String)
  | wrongValue (found : Found) (expected : String)
  | wrongLength (length : Nat) (expected : String)
  | missingField (name : String)
  | repeatedField (name : String)
  | unknownVariant (name : String) (known : List String)
deriving DecidableEq, Repr

/-- What is wrong with a text. -/
inductive Reason where
  | endInValue
  | endInList
  | endInObject
  | endInString
  | expectedColon
  | expectedListEnd
  | expectedObjectEnd
  | expectedIdent
  | expectedValue
  | invalidEscape
  | invalidNumber
  | numberOutOfRange
  | loneSurrogate
  | unfinishedSurrogate
  | controlCharacter
  | keyNotString
  | trailingComma
  | trailingCharacters
  | tooDeep
  | mismatch (detail : Mismatch)
deriving DecidableEq, Repr

/-- A place in a text. -/
structure Position where
  line : Nat
  column : Nat
deriving DecidableEq, Repr

/-- A fault and its place. -/
structure Fault where
  reason : Reason
  position : Position
deriving DecidableEq, Repr

end LogMotif.Json
