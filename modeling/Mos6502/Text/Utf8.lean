/-
Mos6502/Text/Utf8.lean

Reading a byte string as UTF-8.  Every byte string can be read: a byte that
is no part of a well-formed character is kept as a stray byte of its own, and
reading goes on with the byte after it.

The lead byte fixes how many continuation bytes follow and between which
bounds the first of them lies; these bounds exclude overlong forms, surrogates
and values above U+10FFFF.
-/
import Mos6502.Bytes

namespace Mos6502.Text

/-- One unit of a byte string read as UTF-8. -/
inductive Rune where
  /-- A well-formed character. -/
  | char (c : Char)
  /-- A byte that belongs to no well-formed character. -/
  | stray (b : UInt8)
deriving DecidableEq, Repr

/-- For a lead byte: the number of continuation bytes, and the least and the
greatest value of the first of them. -/
def continuation? (b : UInt8) : Option (Nat × UInt8 × UInt8) :=
  if 0xC2 ≤ b && b ≤ 0xDF then some (1, 0x80, 0xBF)
  else if b == 0xE0 then some (2, 0xA0, 0xBF)
  else if b == 0xED then some (2, 0x80, 0x9F)
  else if 0xE1 ≤ b && b ≤ 0xEF then some (2, 0x80, 0xBF)
  else if b == 0xF0 then some (3, 0x90, 0xBF)
  else if b == 0xF4 then some (3, 0x80, 0x8F)
  else if 0xF1 ≤ b && b ≤ 0xF3 then some (3, 0x80, 0xBF)
  else none

/-- A continuation byte. -/
def isContinuation (b : UInt8) : Bool :=
  0x80 ≤ b && b ≤ 0xBF

/-- The six payload bits of a continuation byte. -/
def payload (b : UInt8) : Nat :=
  b.toNat % 0x40

/-- The unit that starts with byte `b` before `rest`, and how many bytes of
`rest` belong to it. -/
def firstRune (b : UInt8) (rest : Bytes) : Rune × Nat :=
  if b < 0x80 then (.char (Char.ofNat b.toNat), 0)
  else
    match continuation? b, rest with
    | some (1, low, high), c :: _ =>
      if low ≤ c && c ≤ high then
        (.char (Char.ofNat (b.toNat % 0x20 * 0x40 + payload c)), 1)
      else (.stray b, 0)
    | some (2, low, high), c :: d :: _ =>
      if low ≤ c && c ≤ high && isContinuation d then
        (.char (Char.ofNat ((b.toNat % 0x10 * 0x40 + payload c) * 0x40 + payload d)), 2)
      else (.stray b, 0)
    | some (3, low, high), c :: d :: e :: _ =>
      if low ≤ c && c ≤ high && isContinuation d && isContinuation e then
        (.char (Char.ofNat
          (((b.toNat % 0x08 * 0x40 + payload c) * 0x40 + payload d) * 0x40 + payload e)), 3)
      else (.stray b, 0)
    | _, _ => (.stray b, 0)

/-- A byte string as characters and stray bytes. -/
def runes : Bytes → List Rune
  | [] => []
  | b :: rest => (firstRune b rest).1 :: runes (rest.drop (firstRune b rest).2)
termination_by s => s.length
decreasing_by
  simp only [List.length_drop, List.length_cons]
  omega

/-- A byte string as characters, with U+FFFD for each stray byte. -/
def chars (s : Bytes) : List Char :=
  (runes s).map fun
    | .char c => c
    | .stray _ => Char.ofNat 0xFFFD

/-- The UTF-8 bytes of a list of characters. -/
def encode (cs : List Char) : Bytes :=
  cs.flatMap String.utf8EncodeChar

end Mos6502.Text
