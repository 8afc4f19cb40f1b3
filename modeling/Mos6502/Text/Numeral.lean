/-
Mos6502/Text/Numeral.lean

Numerals.  Addresses and bytes are printed in upper-case hexadecimal with a
fixed number of digits; counts and line numbers in decimal.  Reading is the
positional value of a list of digits, in any base.

`hexPadded` is built from the last digit to the first, so its length is its
first argument whatever the number is; `hexAtLeast` adds the digits that a
larger number needs.
-/
import Mos6502.Bytes

namespace Mos6502.Numeral

/-! ### Writing -/

/-- The upper-case digit of a value below 16. -/
def upperDigit (n : Nat) : UInt8 :=
  if n < 10 then (0x30 + n).toUInt8 else (0x37 + n).toUInt8

/-- The lower-case digit of a value below 16. -/
def lowerDigit (n : Nat) : UInt8 :=
  if n < 10 then (0x30 + n).toUInt8 else (0x57 + n).toUInt8

/-- The last `count` digits of a number in base 16, written with `digit`. -/
def digitsPadded (digit : Nat → UInt8) : Nat → Nat → Bytes
  | 0, _ => []
  | count + 1, n => digitsPadded digit count (n / 16) ++ [digit (n % 16)]

/-- How many hexadecimal digits a number has; one for zero. -/
def hexLength (n : Nat) : Nat :=
  if n < 16 then 1 else hexLength (n / 16) + 1
termination_by n

/-- The last `count` upper-case hexadecimal digits of a number. -/
def hexPadded (count n : Nat) : Bytes :=
  digitsPadded upperDigit count n

/-- Upper-case hexadecimal, with leading zeros up to `width` digits. -/
def hexAtLeast (width n : Nat) : Bytes :=
  hexPadded (max width (hexLength n)) n

/-- Lower-case hexadecimal without leading zeros. -/
def lowerHex (n : Nat) : Bytes :=
  digitsPadded lowerDigit (hexLength n) n

/-- A byte as two hexadecimal digits. -/
def byte (b : UInt8) : Bytes :=
  hexPadded 2 b.toNat

/-- A word as four hexadecimal digits. -/
def word (w : UInt16) : Bytes :=
  hexPadded 4 w.toNat

/-- A word as a literal: a dollar sign and four digits. -/
def wordLiteral (w : UInt16) : Bytes :=
  0x24 :: word w

/-- A natural number in decimal. -/
def nat (n : Nat) : Bytes :=
  (Nat.toDigits 10 n).map Char.toUInt8

/-- An integer in decimal, with a minus sign if it is negative. -/
def int : Int → Bytes
  | .ofNat n => nat n
  | .negSucc n => 0x2D :: nat (n + 1)

/-! ### Reading -/

/-- The value of a decimal digit. -/
def decimalValue? (b : UInt8) : Option Nat :=
  if Byte.isDigit b then some (b.toNat - 0x30) else none

/-- The value of a hexadecimal digit of either case. -/
def hexValue? (b : UInt8) : Option Nat :=
  if Byte.isDigit b then some (b.toNat - 0x30)
  else if 0x41 ≤ b && b ≤ 0x46 then some (b.toNat - 0x37)
  else if 0x61 ≤ b && b ≤ 0x66 then some (b.toNat - 0x57)
  else none

/-- The positional value of digits, the most significant first. -/
def positional (base : Nat) (digits : List Nat) : Nat :=
  digits.foldl (fun value digit => value * base + digit) 0

/-- The value of a non-empty text that holds hexadecimal digits only. -/
def readHex? (s : Bytes) : Option Nat :=
  if s.isEmpty then none else (s.mapM hexValue?).map (positional 16)

/-- The value of a non-empty text that holds decimal digits only. -/
def readDecimal? (s : Bytes) : Option Nat :=
  if s.isEmpty then none else (s.mapM decimalValue?).map (positional 10)

end Mos6502.Numeral
