import LogMotif.Json.Source

/-! # Reading JSON strings and numbers

Strings are read with their escapes undone; an escape above the Basic Multilingual Plane is a pair
of surrogates. Numbers are read as integers where they fit a machine word, and as binary64 numbers
otherwise; digits beyond what fits a word count by their number only. A lenient reader passes over
values that nobody will look at: it does not mind a surrogate without its pair, nor a number out of
range.
-/

namespace LogMotif.Json

/-- How strictly strings and numbers are checked. -/
inductive Rigor where
  | strict
  | lenient
deriving DecidableEq, Repr

/-- The value of a hexadecimal digit. -/
def hexValue? (c : Char) : Option Nat :=
  if '0' ≤ c ∧ c ≤ '9' then some (c.toNat - '0'.toNat)
  else if 'a' ≤ c ∧ c ≤ 'f' then some (c.toNat - 'a'.toNat + 10)
  else if 'A' ≤ c ∧ c ≤ 'F' then some (c.toNat - 'A'.toNat + 10)
  else none

/-- Whether a code unit is the first of a pair of surrogates. -/
def isLeadSurrogate (unit : Nat) : Bool := decide (0xD800 ≤ unit ∧ unit ≤ 0xDBFF)

/-- Whether a code unit is the second of a pair of surrogates. -/
def isTrailSurrogate (unit : Nat) : Bool := decide (0xDC00 ≤ unit ∧ unit ≤ 0xDFFF)

/-- The character that a pair of surrogates stands for. -/
def joinSurrogates (lead trail : Nat) : Char :=
  Char.ofNat (0x10000 + (lead - 0xD800) * 0x400 + (trail - 0xDC00))

namespace Read

/-- Read the hexadecimal digits in the next `left` bytes. A fault is noticed behind them. -/
def hexDigits (left : Nat) (value : Option Nat) :
    List Char → Position → Except Stop (Nat × Source)
  | [], position =>
    if left = 0 then
      match value with
      | some unit => .ok (unit, ⟨[], position⟩)
      | none => .error (.fault ⟨.invalidEscape, position⟩)
    else .error (.fault ⟨.endInString, position⟩)
  | c :: rest, position =>
    if left = 0 then
      match value with
      | some unit => .ok (unit, ⟨c :: rest, position⟩)
      | none => .error (.fault ⟨.invalidEscape, position⟩)
    else if left < c.utf8Size then
      .error (.fault ⟨.invalidEscape, position.line, position.column + left⟩)
    else
      let value := do return (← value) * 16 + (← hexValue? c)
      hexDigits (left - c.utf8Size) value rest (position.after c)

/-- Read the four digits of a numeric escape. -/
def codeUnit : Read Nat := fun source => hexDigits 4 (some 0) source.rest source.position

/-- Pass over a character that must follow the first of a pair of surrogates. -/
def surrogateMark (mark : Char) : Read Unit := do
  match ← peek with
  | none => failHere .endInString
  | some c => if c = mark then advance else failAhead .unfinishedSurrogate

/-- Read a numeric escape behind its `u`. -/
def numericEscape (rigor : Rigor) : Read Char := do
  let unit ← codeUnit
  if isTrailSurrogate unit || isLeadSurrogate unit then
    if rigor = .lenient then return '\uFFFD'
    if isTrailSurrogate unit then failHere .loneSurrogate
    surrogateMark '\\'
    surrogateMark 'u'
    let trail ← codeUnit
    if isTrailSurrogate trail then return joinSurrogates unit trail
    failHere .loneSurrogate
  else return Char.ofNat unit

/-- The character behind a backslash that a letter stands for. -/
def letterEscape? (c : Char) : Option Char :=
  match c with
  | '"' => some '"'
  | '\\' => some '\\'
  | '/' => some '/'
  | 'b' => some '\x08'
  | 'f' => some '\x0c'
  | 'n' => some '\n'
  | 'r' => some '\r'
  | 't' => some '\t'
  | _ => none

/-- Read an escape behind its backslash. -/
def escape (rigor : Rigor) : Read Char := do
  match ← peek with
  | none => failHere .endInString
  | some 'u' => advance; numericEscape rigor
  | some c =>
    match letterEscape? c with
    | some meant => advance; return meant
    | none => failAhead .invalidEscape

/-- Read the rest of a string, of which `reversed` has been read. Each round takes a character at
least, so that a round for each character left is enough. -/
def stringRest (rigor : Rigor) : List Char → List Char → Read String
  | [], _ => failHere .endInString
  | _ :: rounds, reversed => do
    match ← peek with
    | none => failHere .endInString
    | some '"' => advance; return String.ofList reversed.reverse
    | some '\\' =>
      advance
      let c ← escape rigor
      stringRest rigor rounds (c :: reversed)
    | some c =>
      if c.toNat < 0x20 then failAhead .controlCharacter
      advance
      stringRest rigor rounds (c :: reversed)

/-- Read a string behind its opening quote. -/
def string (rigor : Rigor) : Read String := fun source =>
  stringRest rigor source.rest [] source

/-! ### Numbers -/

/-- The greatest significand that is kept exactly. -/
def greatestSignificand : Nat := 0xFFFFFFFFFFFFFFFF

/-- The greatest exponent that is kept exactly. -/
def greatestPower : Nat := 0x7FFFFFFF

/-- Whether a character is a decimal digit. -/
def isDigit (c : Char) : Bool := decide ('0' ≤ c ∧ c ≤ '9')

/-- Read the decimal digits at the front of the text. -/
def digits : Read (List Nat) := fun source =>
  let taken := source.rest.takeWhile isDigit
  .ok (taken.map fun c => c.toNat - '0'.toNat,
    ⟨source.rest.drop taken.length,
      ⟨source.position.line, source.position.column + taken.length⟩⟩)

/-- Append digits to a number as long as it stays within a limit; the digits left over begin with
the one that does not fit. -/
def appendDigits (limit value : Nat) : List Nat → Nat × List Nat
  | [] => (value, [])
  | digit :: rest =>
    if value * 10 + digit ≤ limit then appendDigits limit (value * 10 + digit) rest
    else (value, digit :: rest)

/-- The number `significand · 10 ^ power`, unless it is out of range. -/
def scaled (rigor : Rigor) (negative : Bool) (significand : Nat) (power : Int) : Read Number := do
  match Magnitude.ofDecimal? significand power with
  | some magnitude => return .float ⟨negative, magnitude⟩
  | none =>
    if rigor = .lenient then return .float ⟨negative, .zero⟩
    failHere .numberOutOfRange

/-- The number without a point or exponent. Negative zero and integers below the range of a word
are binary64 numbers. -/
def whole (negative : Bool) (significand : Nat) : Number :=
  if negative then
    if significand = 0 ∨ 0x8000000000000000 < significand then .float ⟨true, .ofNat significand⟩
    else .integer (-(significand : Int))
  else .integer significand

/-- Read an exponent behind its mark. -/
def exponent (rigor : Rigor) (negative : Bool) (significand : Nat) (power : Int) :
    Read Number := do
  let sign ← peek
  if sign = some '+' || sign = some '-' then advance
  match ← peek with
  | none => failHere .endInValue
  | some c =>
    if !isDigit c then failAhead .invalidNumber
    let start ← get
    let taken ← digits
    let (value, excess) := appendDigits greatestPower 0 taken
    if excess.isEmpty then
      let shift : Int := if sign = some '-' then -(value : Int) else value
      scaled rigor negative significand (power + shift)
    else if significand ≠ 0 ∧ sign ≠ some '-' ∧ rigor = .strict then
      let kept := taken.length - excess.length + 1
      throw (.fault ⟨.numberOutOfRange, start.position.line, start.position.column + kept⟩)
    else return .float ⟨negative, .zero⟩

/-- Read the digits behind a point. Of a significand that fills a word, the further digits are
dropped. -/
def decimals (rigor : Rigor) (negative : Bool) (significand : Nat) (power : Int) :
    Read Number := do
  match ← peek with
  | none => failHere .endInValue
  | some c =>
    if !isDigit c then failAhead .invalidNumber
    let taken ← digits
    let (significand, excess) := appendDigits greatestSignificand significand taken
    let power := power - ((taken.length - excess.length : Nat) : Int)
    match ← peek with
    | some 'e' | some 'E' => advance; exponent rigor negative significand power
    | _ => scaled rigor negative significand power

/-- Read what follows the integer part of a number, of which `dropped` digits did not fit. -/
def numberRest (rigor : Rigor) (negative : Bool) (significand dropped : Nat) : Read Number := do
  match ← peek with
  | some '.' => advance; decimals rigor negative significand dropped
  | some 'e' | some 'E' => advance; exponent rigor negative significand dropped
  | _ =>
    if dropped = 0 then return whole negative significand
    else scaled rigor negative significand dropped

/-- Read a number behind its sign. A zero at the front stands alone. -/
def number (rigor : Rigor) (negative : Bool) : Read Number := do
  match ← peek with
  | none => failHere .endInValue
  | some '0' =>
    advance
    if (← peek).any isDigit then failAhead .invalidNumber
    numberRest rigor negative 0 0
  | some c =>
    if !isDigit c then failAhead .invalidNumber
    let (significand, excess) := appendDigits greatestSignificand 0 (← digits)
    numberRest rigor negative significand excess.length

end Read

end LogMotif.Json
