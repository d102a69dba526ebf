import LogMotif.Json.Literal

/-! # Reading JSON values

Lists and objects are read by one loop each, which takes the reader of an item as a parameter, so
that a list of records of a known shape and a list of arbitrary values are read alike. Values may be
nested to a fixed depth.
-/

namespace LogMotif.Json

/-- How many brackets may be open at once. -/
def nestingLimit : Nat := 127

namespace Read

/-- Go to the next item of a list, if there is one; otherwise to the closing bracket. -/
def nextItem (isFirst : Bool) : Read Bool := do
  skipBlanks
  match ← peek with
  | none => failAhead .endInList
  | some ']' => return false
  | some c =>
    if isFirst then return true
    if c ≠ ',' then failAhead .expectedListEnd
    advance
    skipBlanks
    match ← peek with
    | none => failAhead .endInValue
    | some ']' => failAhead .trailingComma
    | some _ => return true

/-- Read the items of a list up to the closing bracket. Each round takes a character at least, so
that a round for each character left is enough. -/
def items (item : Read α) : List Char → Bool → Read (List α)
  | [], _ => failAhead .endInList
  | _ :: rounds, isFirst => do
    if ← nextItem isFirst then
      let first ← item
      return first :: (← items item rounds false)
    else return []

/-- Read the items of a list up to the closing bracket. -/
def itemsToEnd (item : Read α) (isFirst : Bool) : Read (List α) := fun source =>
  items item source.rest isFirst source

/-- Read a list, of which `body` reads what is inside the brackets. -/
def listOf (body : Read α) : Read α := do
  advance
  let content ← locatedBy .closeList body
  skipBlanks
  advance
  return content

/-- Read the next key of an object, if there is one; otherwise go to the closing brace. -/
def nextKey (rigor : Rigor) (isFirst : Bool) : Read (Option String) := do
  skipBlanks
  match ← peek with
  | none => failAhead .endInObject
  | some '}' => return none
  | some c =>
    if !isFirst then
      if c ≠ ',' then failAhead .expectedObjectEnd
      advance
      skipBlanks
    match ← peek with
    | none => failAhead .endInValue
    | some '"' =>
      advance
      return some (← string rigor)
    | some '}' => failAhead .trailingComma
    | some _ => failAhead .keyNotString

/-- Pass over the colon between a key and its value. -/
def colon : Read Unit := do
  skipBlanks
  match ← peek with
  | none => failAhead .endInObject
  | some ':' => advance
  | some _ => failAhead .expectedColon

/-- Read the members of an object up to the closing brace. Behind each key, `member` reads the
colon and the value. Each round takes a character at least, so that a round for each character left
is enough. -/
def members (rigor : Rigor) (member : σ → String → Read σ) : List Char → Bool → σ → Read σ
  | [], _, _ => failAhead .endInObject
  | _ :: rounds, isFirst, state => do
    match ← nextKey rigor isFirst with
    | none => return state
    | some key =>
      let state ← member state key
      members rigor member rounds false state

/-- Read the members of an object up to the closing brace. -/
def membersToEnd (rigor : Rigor) (member : σ → String → Read σ) (state : σ) : Read σ :=
  fun source => members rigor member source.rest true state source

/-- Read an object, of which `body` reads what is inside the braces. -/
def objectOf (body : Read α) : Read α := do
  advance
  let content ← locatedBy .closeObject body
  skipBlanks
  advance
  return content

/-- Read the members of an object whose values are read by `value`. -/
def membersWith (rigor : Rigor) (value : Read α) : Read (List (String × α)) := do
  let reversed ← membersToEnd rigor (fun read key => do
    colon
    return (key, ← value) :: read) []
  return reversed.reverse

/-- Read a value that is no list or object. -/
def scalar (rigor : Rigor) : Read Value := do
  match ← peek with
  | none => failAhead .endInValue
  | some 'n' => advance; word "ull".toList; return .null
  | some 't' => advance; word "rue".toList; return .bool true
  | some 'f' => advance; word "alse".toList; return .bool false
  | some '"' => advance; return .string (← string rigor)
  | some '-' => advance; return .number (← number rigor true)
  | some c =>
    if isDigit c then return .number (← number rigor false)
    failAhead .expectedValue

/-- Read a value, of which `inner?` reads the values inside a list or object, if it may be one. -/
def valueWith (rigor : Rigor) (inner? : Option (Read Value)) : Read Value := do
  skipBlanks
  match ← peek, inner? with
  | some '[', none | some '{', none => failAhead .tooDeep
  | some '[', some inner => return .array (← listOf (itemsToEnd inner true))
  | some '{', some inner => return .object (← objectOf (membersWith rigor inner))
  | _, _ => scalar rigor

/-- Read a value in which at most `depth` brackets are open at once. -/
def value (rigor : Rigor) : Nat → Read Value
  | 0 => valueWith rigor none
  | depth + 1 => valueWith rigor (some (value rigor depth))

/-- Pass over a value in which at most as many brackets are open at once as there are characters in
a text. -/
def ignoredWithin : List Char → Read Value
  | [] => valueWith .lenient none
  | _ :: depth => valueWith .lenient (some (ignoredWithin depth))

/-- Pass over a value that nobody looks at, however deep. -/
def ignored : Read Unit := fun source => do
  let (_, rest) ← ignoredWithin source.rest source
  return ((), rest)

/-- Stop at a value that is not of the expected shape. A scalar is passed over, a list or object is
not. -/
def unexpected (expected : String) : Read α := do
  match ← peek with
  | some '[' => failHere (.mismatch (.wrongType .sequence expected))
  | some '{' => failHere (.mismatch (.wrongType .map expected))
  | _ =>
    let found ← scalar .strict
    failHere (.mismatch (.wrongType found.found expected))

/-- Go to the first character of a value. -/
def startOfValue : Read (Option Char) := do
  skipBlanks
  match ← peek with
  | none => failAhead .endInValue
  | some c => return some c

end Read

/-- The value that a text holds. -/
def Value.ofText (text : String) : Except Fault Value :=
  (Read.value .strict nestingLimit).run text

end LogMotif.Json
