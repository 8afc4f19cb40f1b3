/-
Mos6502/Text/Blank.lean

White space at the edges of a text.  Trimming takes the characters with the
Unicode property White_Space, each as the UTF-8 byte sequence that writes it.
A byte such as 0x85 or 0xA0 that is no part of such a sequence is no blank and
stays.

A sequence of the table is never the start of another one, and its first byte
is never a continuation byte, so taking sequences off the back in reverse is
the same as taking characters off.
-/
import Mos6502.Bytes

namespace Mos6502.Text

/-- The white-space characters, each as its UTF-8 bytes: U+0009 to U+000D,
U+0020, U+0085, U+00A0, U+1680, U+2000 to U+200A, U+2028, U+2029, U+202F,
U+205F and U+3000. -/
def blanks : List Bytes :=
  [[0x20], [0x09], [0x0A], [0x0B], [0x0C], [0x0D],
   [0xC2, 0x85], [0xC2, 0xA0], [0xE1, 0x9A, 0x80],
   [0xE2, 0x80, 0x80], [0xE2, 0x80, 0x81], [0xE2, 0x80, 0x82], [0xE2, 0x80, 0x83],
   [0xE2, 0x80, 0x84], [0xE2, 0x80, 0x85], [0xE2, 0x80, 0x86], [0xE2, 0x80, 0x87],
   [0xE2, 0x80, 0x88], [0xE2, 0x80, 0x89], [0xE2, 0x80, 0x8A],
   [0xE2, 0x80, 0xA8], [0xE2, 0x80, 0xA9], [0xE2, 0x80, 0xAF],
   [0xE2, 0x81, 0x9F], [0xE3, 0x80, 0x80]]

/-- The same characters, each with its bytes in reverse. -/
def blanksReversed : List Bytes :=
  blanks.map List.reverse

/-- The unit of the table that stands at the front of a text, if any. -/
def unitAtFront? (units : List Bytes) (s : Bytes) : Option Bytes :=
  units.find? fun u => !u.isEmpty && u.isPrefixOf s

/-- A unit found at the front is not longer than the text, and not empty. -/
theorem unitAtFront?_length {units : List Bytes} {s u : Bytes}
    (h : unitAtFront? units s = some u) : 0 < u.length ∧ u.length ≤ s.length := by
  have hu := List.find?_some h
  simp only [Bool.and_eq_true, Bool.not_eq_true'] at hu
  obtain ⟨hne, hpre⟩ := hu
  constructor
  · cases u with
    | nil => simp at hne
    | cons b r => simp
  · exact (List.isPrefixOf_iff_prefix.mp hpre).length_le

/-- Takes units off the front for as long as one stands there. -/
def dropUnits (units : List Bytes) (s : Bytes) : Bytes :=
  match _h : unitAtFront? units s with
  | none => s
  | some u => dropUnits units (s.drop u.length)
termination_by s.length
decreasing_by
  have := unitAtFront?_length _h
  simp only [List.length_drop]
  omega

/-- A text without its leading white space. -/
def trimStart (s : Bytes) : Bytes :=
  dropUnits blanks s

/-- A text without its trailing white space. -/
def trimEnd (s : Bytes) : Bytes :=
  (dropUnits blanksReversed s.reverse).reverse

/-- A text without white space at its edges. -/
def trim (s : Bytes) : Bytes :=
  trimEnd (trimStart s)

end Mos6502.Text
