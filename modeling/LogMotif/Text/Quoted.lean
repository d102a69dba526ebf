import LogMotif.Text.Printable

/-! # Quoted texts in messages

A text as it is shown in a message: between quotes, with the quote, the backslash and the common
control characters behind a backslash, and with every other character that is not printable by its
number.
-/

namespace LogMotif.Text

/-- A number in lower-case hexadecimal digits. -/
def hexadecimal (n : Nat) : String := String.ofList (Nat.toDigits 16 n)

/-- A character as it is shown inside a quoted text. -/
def showChar (c : Char) : String :=
  if c = '"' then "\\\""
  else if c = '\\' then "\\\\"
  else if c = '\n' then "\\n"
  else if c = '\r' then "\\r"
  else if c = '\t' then "\\t"
  else if c = '\x00' then "\\0"
  else if isPrintable c then String.singleton c
  else "\\u\x7b" ++ hexadecimal c.toNat ++ "\x7d"

/-- A text between quotes. -/
def quoted (text : String) : String := "\"" ++ String.join (text.toList.map showChar) ++ "\""

end LogMotif.Text
