import LogMotif.Json.Fault
import LogMotif.Text.Quoted

/-! # Messages for faults in JSON texts

The words in which a fault is reported. A fault of a text names its place at the end.
-/

namespace LogMotif.Json

/-- A name between backticks. -/
def ticked (name : String) : String := "\x60" ++ name ++ "\x60"

/-- What was found, as a message names it. -/
def Found.describe : Found → String
  | null => "null"
  | bool value => "boolean " ++ ticked (toString value)
  | number (.integer value) => "integer " ++ ticked (toString value)
  | number (.float value) => "floating point " ++ ticked value.text
  | string value => "string " ++ Text.quoted value
  | sequence => "sequence"
  | map => "map"
  | unitVariant => "unit variant"

/-- The words for a value of an unexpected shape. -/
def Mismatch.message : Mismatch → String
  | wrongType found expected => "invalid type: " ++ found.describe ++ ", expected " ++ expected
  | wrongValue found expected => "invalid value: " ++ found.describe ++ ", expected " ++ expected
  | wrongLength length expected =>
    "invalid length " ++ toString length ++ ", expected " ++ expected
  | missingField name => "missing field " ++ ticked name
  | repeatedField name => "duplicate field " ++ ticked name
  | unknownVariant name known =>
    "unknown variant " ++ ticked name ++ ", expected one of "
      ++ String.intercalate ", " (known.map ticked)

/-- The words for what is wrong with a text. -/
def Reason.message : Reason → String
  | endInValue => "EOF while parsing a value"
  | endInList => "EOF while parsing a list"
  | endInObject => "EOF while parsing an object"
  | endInString => "EOF while parsing a string"
  | expectedColon => "expected " ++ ticked ":"
  | expectedListEnd => "expected " ++ ticked "," ++ " or " ++ ticked "]"
  | expectedObjectEnd => "expected " ++ ticked "," ++ " or " ++ ticked "\x7d"
  | expectedIdent => "expected ident"
  | expectedValue => "expected value"
  | invalidEscape => "invalid escape"
  | invalidNumber => "invalid number"
  | numberOutOfRange => "number out of range"
  | loneSurrogate => "lone leading surrogate in hex escape"
  | unfinishedSurrogate => "unexpected end of hex escape"
  | controlCharacter => "control character (\\u0000-\\u001F) found while parsing a string"
  | keyNotString => "key must be a string"
  | trailingComma => "trailing comma"
  | trailingCharacters => "trailing characters"
  | tooDeep => "recursion limit exceeded"
  | mismatch detail => detail.message

/-- The words for a fault, with its place. -/
def Fault.message (fault : Fault) : String :=
  s!"{fault.reason.message} at line {fault.position.line} column {fault.position.column}"

end LogMotif.Json
