/-! # JSON string literals

The written form of a text as a JSON string: the quote and the backslash behind a backslash, the
five control characters with a letter of their own by that letter, the other control characters by
four lower-case hexadecimal digits, and every other character as it is. A written text holds no line
break, so it fits on one line.
-/

namespace LogMotif.Json

/-- The lower-case hexadecimal digit of a number below sixteen. -/
def hexDigit (n : Nat) : Char := (Nat.digitChar n)

/-- The characters that stand for one character inside a JSON string. -/
def escapeChar (c : Char) : List Char :=
  if c = '"' then ['\\', '"']
  else if c = '\\' then ['\\', '\\']
  else if c = '\n' then ['\\', 'n']
  else if c = '\r' then ['\\', 'r']
  else if c = '\t' then ['\\', 't']
  else if c = '\x08' then ['\\', 'b']
  else if c = '\x0c' then ['\\', 'f']
  else if c.toNat < 0x20 then
    ['\\', 'u', '0', '0', hexDigit (c.toNat / 16), hexDigit (c.toNat % 16)]
  else [c]

/-- The characters that stand for a text inside a JSON string. -/
def escape (text : List Char) : List Char := text.flatMap escapeChar

/-- A text as it is written inside a JSON string. -/
def escapeText (text : String) : String := String.ofList (escape text.toList)

/-- A text as a JSON string, with its quotes. -/
def quote (text : String) : String := "\"" ++ escapeText text ++ "\""

end LogMotif.Json
