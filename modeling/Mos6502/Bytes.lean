/-
Mos6502/Bytes.lean

Byte strings.  Source text, label names, machine code and file contents are
all lists of bytes: a source file need not be valid UTF-8, and the 6502 has
no other unit.  Names are compared byte by byte, which is the order of `<` on
lists.

The character classes here are those of the assembly language.  They hold
ASCII characters only, because identifiers, literals and the blanks inside an
operand are ASCII by definition.
-/

namespace Mos6502

/-- A byte string: text, a name, machine code or the contents of a file. -/
abbrev Bytes := List UInt8

/-- The bytes of a text whose characters are all ASCII. -/
def ascii (s : String) : Bytes :=
  s.toList.map Char.toUInt8

/-! ### Character classes -/

namespace Byte

/-- A decimal digit. -/
def isDigit (b : UInt8) : Bool :=
  0x30 ≤ b && b ≤ 0x39

/-- An ASCII letter of either case. -/
def isLetter (b : UInt8) : Bool :=
  (0x41 ≤ b && b ≤ 0x5A) || (0x61 ≤ b && b ≤ 0x7A)

/-- A hexadecimal digit of either case. -/
def isHexDigit (b : UInt8) : Bool :=
  isDigit b || (0x41 ≤ b && b ≤ 0x46) || (0x61 ≤ b && b ≤ 0x66)

/-- A byte that may start an identifier: a letter or an underscore. -/
def isNameStart (b : UInt8) : Bool :=
  isLetter b || b == 0x5F

/-- A byte that may continue an identifier: also a digit. -/
def isNamePart (b : UInt8) : Bool :=
  isNameStart b || isDigit b

/-- The blanks allowed inside a line: tab, line feed, form feed, carriage
return and space. -/
def isBlank (b : UInt8) : Bool :=
  b == 0x20 || b == 0x09 || b == 0x0A || b == 0x0C || b == 0x0D

/-- The upper-case form of an ASCII letter; every other byte is unchanged. -/
def toUpper (b : UInt8) : UInt8 :=
  if 0x61 ≤ b && b ≤ 0x7A then b - 0x20 else b

end Byte

/-- An identifier: a letter or underscore, then letters, digits and
underscores. -/
def isIdentifier : Bytes → Bool
  | [] => false
  | b :: rest => Byte.isNameStart b && rest.all Byte.isNamePart

/-! ### Words

The 6502 stores a 16-bit word with its low byte first. -/

namespace Word

/-- The low byte of a word. -/
def lo (w : UInt16) : UInt8 :=
  w.toUInt8

/-- The high byte of a word. -/
def hi (w : UInt16) : UInt8 :=
  (w / 0x100).toUInt8

/-- The word with the given low and high byte. -/
def ofBytes (l h : UInt8) : UInt16 :=
  l.toUInt16 + h.toUInt16 * 0x100

/-- A word in memory order. -/
def toBytes (w : UInt16) : Bytes :=
  [lo w, hi w]

/-- The value of a word by its bytes. -/
theorem toNat_ofBytes (l h : UInt8) : (ofBytes l h).toNat = l.toNat + 0x100 * h.toNat := by
  have hl := l.toNat_lt
  have hh := h.toNat_lt
  simp only [ofBytes, UInt16.toNat_add, UInt16.toNat_mul, UInt8.toNat_toUInt16, UInt16.reduceToNat]
  omega

/-- The low byte of a word is the one it was made with. -/
@[simp]
theorem lo_ofBytes (l h : UInt8) : lo (ofBytes l h) = l := by
  apply UInt8.toNat_inj.mp
  have hl := l.toNat_lt
  simp only [lo, UInt16.toNat_toUInt8, toNat_ofBytes]
  omega

/-- The high byte of a word is the one it was made with. -/
@[simp]
theorem hi_ofBytes (l h : UInt8) : hi (ofBytes l h) = h := by
  apply UInt8.toNat_inj.mp
  have hl := l.toNat_lt
  have hh := h.toNat_lt
  simp only [hi, UInt16.toNat_toUInt8, UInt16.toNat_div, toNat_ofBytes, UInt16.reduceToNat]
  omega

/-- A word is made of its two bytes. -/
@[simp]
theorem ofBytes_lo_hi (w : UInt16) : ofBytes (lo w) (hi w) = w := by
  apply UInt16.toNat_inj.mp
  have hw := w.toNat_lt
  simp only [toNat_ofBytes, lo, hi, UInt16.toNat_toUInt8, UInt16.toNat_div, UInt16.reduceToNat]
  omega

/-- The word at the front of a byte string, if two bytes are there. -/
def read? : Bytes → Option UInt16
  | l :: h :: _ => some (ofBytes l h)
  | _ => none

/-- Stores a word over the first two bytes, if two bytes are there. -/
def store? (w : UInt16) : Bytes → Option Bytes
  | _ :: _ :: rest => some (toBytes w ++ rest)
  | _ => none

end Word

end Mos6502
