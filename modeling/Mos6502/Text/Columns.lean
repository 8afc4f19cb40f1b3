/-
Mos6502/Text/Columns.lean

Texts in columns: padding to a width, separators, and spaces at the end of a
line.  Widths are counted in bytes; only ASCII texts are set in columns.
-/
import Mos6502.Bytes

namespace Mos6502.Text

/-- A text with spaces after it, up to a width. -/
def padRight (width : Nat) (s : Bytes) : Bytes :=
  s ++ List.replicate (width - s.length) 0x20

/-- Texts with a separator between them. -/
def joinWith (separator : Bytes) : List Bytes → Bytes
  | [] => []
  | first :: rest => first ++ rest.flatMap fun s => separator ++ s

/-- A text without the spaces at its end. -/
def dropTrailingSpaces (s : Bytes) : Bytes :=
  (s.reverse.dropWhile (· == 0x20)).reverse

end Mos6502.Text
