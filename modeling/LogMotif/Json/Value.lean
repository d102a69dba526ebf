import LogMotif.Decimal.Shortest
import LogMotif.Json.Quote

/-! # JSON values and their written form

A value keeps the members of an object in the order they were written, repetitions included. It can
be written compactly, without blanks, or laid out with one item a line and two blanks a level. In
its canonical form an object lists each key once, with its last value, in the order of characters.
-/

namespace LogMotif.Json

/-- A JSON number: integers within the range of machine words are exact, all others binary64. -/
inductive Number where
  | integer (value : Int)
  | float (value : Binary64)
deriving DecidableEq, Repr

/-- The written form of a number. -/
def Number.text : Number → String
  | integer value => toString value
  | float value => value.text

/-- A JSON value. -/
inductive Value where
  | null
  | bool (value : Bool)
  | number (value : Number)
  | string (value : String)
  | array (items : List Value)
  | object (members : List (String × Value))
deriving Repr

/-- An array of texts. -/
def Value.ofStrings (texts : List String) : Value := .array (texts.map .string)

/-- A number that is a natural number. -/
def Value.ofNat (n : Nat) : Value := .number (.integer n)

/-- An array of natural numbers. -/
def Value.ofNats (numbers : List Nat) : Value := .array (numbers.map .ofNat)

/-- A value that may be missing, as null. -/
def Value.ofOption (toValue : α → Value) : Option α → Value
  | none => .null
  | some content => toValue content

namespace Value

mutual

/-- The written form of a value without blanks. -/
def compact : Value → String
  | null => "null"
  | bool true => "true"
  | bool false => "false"
  | number value => value.text
  | string value => quote value
  | array items => "[" ++ String.intercalate "," (compactItems items) ++ "]"
  | object members => "\x7b" ++ String.intercalate "," (compactMembers members) ++ "\x7d"

/-- The written forms of the items of an array. -/
def compactItems : List Value → List String
  | [] => []
  | item :: rest => compact item :: compactItems rest

/-- The written forms of the members of an object. -/
def compactMembers : List (String × Value) → List String
  | [] => []
  | (key, value) :: rest => (quote key ++ ":" ++ compact value) :: compactMembers rest

end

/-- Put the written items of a container on lines of their own, two blanks deeper than `margin`. -/
def layOut (opening closing margin : String) (items : List String) : String :=
  if items.isEmpty then opening ++ closing
  else
    opening ++ "\n" ++ String.intercalate ",\n" (items.map (margin ++ "  " ++ ·)) ++ "\n" ++ margin
      ++ closing

mutual

/-- The written form of a value with one item a line, below a left margin. -/
def prettyAt (margin : String) : Value → String
  | array items => layOut "[" "]" margin (prettyItems (margin ++ "  ") items)
  | object members => layOut "\x7b" "\x7d" margin (prettyMembers (margin ++ "  ") members)
  | null => compact null
  | bool value => compact (bool value)
  | number value => compact (number value)
  | string value => compact (string value)

/-- The laid out forms of the items of an array. -/
def prettyItems (margin : String) : List Value → List String
  | [] => []
  | item :: rest => prettyAt margin item :: prettyItems margin rest

/-- The laid out forms of the members of an object. -/
def prettyMembers (margin : String) : List (String × Value) → List String
  | [] => []
  | (key, value) :: rest =>
    (quote key ++ ": " ++ prettyAt margin value) :: prettyMembers margin rest

end

/-- The written form of a value with one item a line. -/
def pretty (value : Value) : String := value.prettyAt ""

/-- Set the value of a key: in place if the key is present, else behind the others. -/
def setMember (members : List (String × α)) (key : String) (value : α) : List (String × α) :=
  match members with
  | [] => [(key, value)]
  | (other, old) :: rest =>
    if other = key then (key, value) :: rest else (other, old) :: setMember rest key value

/-- The members with each key once: at its first place, with its last value. -/
def lastWins (members : List (String × α)) : List (String × α) :=
  members.foldl (fun kept (key, value) => setMember kept key value) []

/-- The members with each key once, in the order of characters. -/
def sortMembers (members : List (String × α)) : List (String × α) :=
  (lastWins members).mergeSort fun (left, _) (right, _) => decide (left ≤ right)

mutual

/-- The value with the members of every object in canonical order. -/
def canonical : Value → Value
  | array items => array (canonicalItems items)
  | object members => object (sortMembers (canonicalMembers members))
  | null => null
  | bool value => bool value
  | number value => number value
  | string value => string value

/-- The items of an array, each in canonical form. -/
def canonicalItems : List Value → List Value
  | [] => []
  | item :: rest => canonical item :: canonicalItems rest

/-- The members of an object, each in canonical form. -/
def canonicalMembers : List (String × Value) → List (String × Value)
  | [] => []
  | (key, value) :: rest => (key, canonical value) :: canonicalMembers rest

end

end Value

end LogMotif.Json
