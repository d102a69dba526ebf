/-! # Reading UTF-8 that may be damaged

A file is read as UTF-8. Where its bytes are not UTF-8, each longest stretch that starts a character
and cannot be continued, or else a single byte, becomes one replacement character.
-/

namespace LogMotif.Text

/-- The character that stands for damaged bytes. -/
def replacement : Char := '\uFFFD'

/-- How a first byte goes on: how many bytes follow it, the least and the greatest byte that may
come second, and the bits it contributes. -/
def leadByte? (byte : Nat) : Option (Nat × Nat × Nat × Nat) :=
  if byte < 0x80 then some (0, 0x80, 0xBF, byte)
  else if byte < 0xC2 then none
  else if byte < 0xE0 then some (1, 0x80, 0xBF, byte - 0xC0)
  else if byte = 0xE0 then some (2, 0xA0, 0xBF, 0)
  else if byte = 0xED then some (2, 0x80, 0x9F, 0xD)
  else if byte < 0xF0 then some (2, 0x80, 0xBF, byte - 0xE0)
  else if byte = 0xF0 then some (3, 0x90, 0xBF, 0)
  else if byte < 0xF4 then some (3, 0x80, 0xBF, byte - 0xF0)
  else if byte = 0xF4 then some (3, 0x80, 0x8F, 4)
  else none

/-- Where the reader of damaged UTF-8 stands: between characters, or inside one that still needs
`missing` bytes, of which the next lies from `least` to `greatest`. -/
inductive Utf8State where
  | between
  | inside (missing least greatest bits : Nat)
deriving DecidableEq, Repr

/-- What one byte adds when it is met between characters. -/
def startChar (byte : Nat) : List Char × Utf8State :=
  match leadByte? byte with
  | none => ([replacement], .between)
  | some (0, _, _, bits) => ([Char.ofNat bits], .between)
  | some (missing, least, greatest, bits) => ([], .inside missing least greatest bits)

/-- What one byte adds to the text, and where the reader stands after it. -/
def stepUtf8 (state : Utf8State) (byte : Nat) : List Char × Utf8State :=
  match state with
  | .between => startChar byte
  | .inside missing least greatest bits =>
    if least ≤ byte ∧ byte ≤ greatest then
      let bits := bits * 64 + (byte - 0x80)
      if missing ≤ 1 then ([Char.ofNat bits], .between)
      else ([], .inside (missing - 1) 0x80 0xBF bits)
    else
      let (added, state) := startChar byte
      (replacement :: added, state)

/-- Read one byte after those already read. -/
def readByte (read : Array Char × Utf8State) (byte : UInt8) : Array Char × Utf8State :=
  let (added, state) := stepUtf8 read.2 byte.toNat
  (read.1 ++ added, state)

/-- The text that the given bytes stand for. A character left unfinished is damaged. -/
def decodeBytes (bytes : List UInt8) : List Char :=
  match bytes.foldl readByte (#[], .between) with
  | (text, .between) => text.toList
  | (text, .inside ..) => (text.push replacement).toList

/-- The text of a file of UTF-8, with replacement characters for what is damaged. -/
def decodeLossy (bytes : ByteArray) : String :=
  String.ofList (decodeBytes bytes.toList)

end LogMotif.Text
