/-
Mos6502/Text/Quoted.lean

Quoted texts in messages.  A text stands between double quotes; a quote and a
backslash have a backslash in front; printable characters are shown as they
are; the usual control characters have their one-letter escapes; any other
character is written by its number, and a stray byte as `\x` with two digits.
So the message is always printable, and two texts never look the same.
-/
import Mos6502.Text.Utf8
import Mos6502.Text.Printable
import Mos6502.Text.Numeral

namespace Mos6502.Text

/-- A character's number in lower-case hexadecimal with `count` digits. -/
def lowerHexPadded (count n : Nat) : Bytes :=
  Numeral.digitsPadded Numeral.lowerDigit count n

/-- The one-letter escape of a control character, if it has one. -/
def shortEscape? (c : Char) : Option Char :=
  match c.toNat with
  | 0x07 => some 'a'
  | 0x08 => some 'b'
  | 0x09 => some 't'
  | 0x0A => some 'n'
  | 0x0B => some 'v'
  | 0x0C => some 'f'
  | 0x0D => some 'r'
  | _ => none

/-- How a quoted text shows one character. -/
def showChar (c : Char) : Bytes :=
  if c == '"' || c == '\\' then [0x5C, c.toUInt8]
  else if isPrintable c then String.utf8EncodeChar c
  else
    match shortEscape? c with
    | some e => [0x5C, e.toUInt8]
    | none =>
      if c.toNat < 0x20 || c.toNat == 0x7F then ascii "\\x" ++ lowerHexPadded 2 c.toNat
      else if c.toNat < 0x10000 then ascii "\\u" ++ lowerHexPadded 4 c.toNat
      else ascii "\\U" ++ lowerHexPadded 8 c.toNat

/-- How a quoted text shows one unit. -/
def showRune : Rune → Bytes
  | .char c => showChar c
  | .stray b => ascii "\\x" ++ lowerHexPadded 2 b.toNat

/-- A text between double quotes, with escapes. -/
def quote (s : Bytes) : Bytes :=
  0x22 :: ((runes s).flatMap showRune ++ [0x22])

end Mos6502.Text
