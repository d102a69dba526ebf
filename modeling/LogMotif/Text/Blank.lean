/-! # Blank characters

The characters with the Unicode property White_Space, and the texts without those at their ends.
-/

namespace LogMotif.Text

/-- Whether a character is white space: the ASCII blanks, the next line control, the no-break and
Ogham spaces, the fixed-width spaces, the two separators, and the mathematical and ideographic
spaces. -/
def isBlank (c : Char) : Bool :=
  let code := c.toNat
  decide (0x09 ≤ code ∧ code ≤ 0x0D) || code == 0x20 || code == 0x85 || code == 0xA0
    || code == 0x1680 || decide (0x2000 ≤ code ∧ code ≤ 0x200A) || code == 0x2028
    || code == 0x2029 || code == 0x202F || code == 0x205F || code == 0x3000

/-- The text without the blanks at its start. -/
def dropBlanks (text : List Char) : List Char := text.dropWhile isBlank

/-- Whether a text holds nothing but blanks. -/
def isAllBlank (text : List Char) : Bool := text.all isBlank

end LogMotif.Text
