import LogMotif.Text.Blank

/-! # Recognising times

A cell looks like a timestamp when it is a complete internet time with its offset, a date and time
separated by blanks or by a `T`, or a time of day with or without seconds. In the last three forms a
number may have blanks in front and fewer digits than usual. The sixtieth second is a leap second,
and every date must exist.
-/

namespace LogMotif.Timestamp

/-- A scanner that takes something from the front of a text. -/
abbrev Scan := StateT (List Char) Option

/-- Whether a character is a decimal digit. -/
def isDigit (c : Char) : Bool := decide ('0' ≤ c ∧ c ≤ '9')

/-- The number that decimal digits stand for. -/
def ofDigits (digits : List Char) : Nat :=
  digits.foldl (fun value c => value * 10 + (c.toNat - '0'.toNat)) 0

/-- Pass over one character out of several. -/
def oneOf (allowed : List Char) : Scan Unit := fun text =>
  match text with
  | c :: rest => if c ∈ allowed then some ((), rest) else none
  | [] => none

/-- Take exactly so many digits. -/
def exactDigits (count : Nat) : Scan Nat := fun text =>
  let taken := text.take count
  if taken.length = count ∧ taken.all isDigit then some (ofDigits taken, text.drop count) else none

/-- Take one digit or more, but no more than `most` if that is given. -/
def someDigits (most : Option Nat) : Scan Nat := fun text =>
  let run := text.takeWhile isDigit
  let taken := most.elim run run.take
  if taken.isEmpty then none else some (ofDigits taken, text.drop taken.length)

/-- Pass over blanks. -/
def blanks : Scan Unit := fun text => some ((), Text.dropBlanks text)

/-- Take a number of one or two digits, with blanks in front. -/
def shortNumber : Scan Nat := do
  blanks
  someDigits (some 2)

/-- Take a year of up to four digits, or of any length behind a sign, with blanks in front. -/
def year : Scan Int := do
  blanks
  match (← get).head? with
  | some '-' => oneOf ['-']; return -((← someDigits none : Nat) : Int)
  | some '+' => oneOf ['+']; return ((← someDigits none : Nat) : Int)
  | _ => return ((← someDigits (some 4) : Nat) : Int)

/-- Pass over a point and the digits behind it, if a point is next. -/
def fraction : Scan Unit := do
  if (← get).head? = some '.' then
    oneOf ['.']
    let _ ← someDigits none

/-- Go on if a condition holds. -/
def check (condition : Bool) : Scan Unit := fun text => if condition then some ((), text) else none

/-- Whether a year has a leap day. -/
def isLeapYear (year : Int) : Bool :=
  year % 4 == 0 && (year % 100 != 0 || year % 400 == 0)

/-- The number of days in a month, or zero if there is no such month. -/
def daysIn (year : Int) (month : Nat) : Nat :=
  if month = 2 then (if isLeapYear year then 29 else 28)
  else if month ∈ [4, 6, 9, 11] then 30
  else if 1 ≤ month ∧ month ≤ 12 then 31
  else 0

/-- Whether a date exists, in the range of years that is supported. -/
def isDate (year : Int) (month day : Nat) : Bool :=
  decide (-262143 ≤ year ∧ year ≤ 262142 ∧ 1 ≤ day ∧ day ≤ daysIn year month)

/-- Whether a time of day exists, leap seconds included. -/
def isTimeOfDay (hour minute second : Nat) : Bool :=
  decide (hour < 24 ∧ minute < 60 ∧ second ≤ 60)

/-- Take an internet time: all numbers at full width, and an offset from universal time of less than
a day. -/
def internetTime : Scan Unit := do
  let year ← exactDigits 4
  oneOf ['-']
  let month ← exactDigits 2
  oneOf ['-']
  let day ← exactDigits 2
  oneOf ['T', 't', ' ']
  let hour ← exactDigits 2
  oneOf [':']
  let minute ← exactDigits 2
  oneOf [':']
  let second ← exactDigits 2
  fraction
  check (isDate year month day && isTimeOfDay hour minute second)
  match (← get).head? with
  | some 'Z' | some 'z' => oneOf ['Z', 'z']
  | _ =>
    oneOf ['+', '-', '\u2212']
    let hours ← exactDigits 2
    oneOf [':']
    let minutes ← exactDigits 2
    check (decide (hours < 24 ∧ minutes < 60))

/-- Take a time of day with seconds. -/
def timeOfDay : Scan Unit := do
  let hour ← shortNumber
  oneOf [':']
  let minute ← shortNumber
  oneOf [':']
  let second ← shortNumber
  fraction
  check (isTimeOfDay hour minute second)

/-- Take a time of day without seconds. -/
def hourAndMinute : Scan Unit := do
  let hour ← shortNumber
  oneOf [':']
  let minute ← shortNumber
  check (isTimeOfDay hour minute 0)

/-- Take a date and a time of day with `separator` between them. -/
def dateAndTime (separator : Scan Unit) : Scan Unit := do
  let year ← year
  oneOf ['-']
  let month ← shortNumber
  oneOf ['-']
  let day ← shortNumber
  check (isDate year month day)
  separator
  timeOfDay

/-- Whether a scanner takes a whole text. -/
def takesAll (scan : Scan Unit) (text : List Char) : Bool :=
  match scan text with
  | some ((), rest) => rest.isEmpty
  | none => false

/-- Whether a text looks like a timestamp. -/
def looksLike (text : String) : Bool :=
  [internetTime, dateAndTime blanks, dateAndTime (oneOf ['T']), timeOfDay, hourAndMinute].any
    (takesAll · text.toList)

end LogMotif.Timestamp
