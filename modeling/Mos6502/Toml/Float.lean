/-
Mos6502/Toml/Float.lean

Which floats are finite.  A float is read as a decimal fraction: significant
digits behind the point, times a power of ten.  The reading is bounded in two
ways, so that a text of any length gives a decimal of small size:

* a power of ten no longer grows once it has five digits;
* 800 digits are held, and the point stands no later than the last of them.

A decimal overflows if it is at least half a unit above the largest double.
-/
import Mos6502.Text.Numeral
import Mos6502.Text.Quoted

namespace Mos6502.Toml

/-! ### Decimals -/

/-- The number `0.d₁d₂… · 10 ^ point`; the first digit is not zero, and zero
has no digits. -/
structure Decimal where
  digits : List Nat
  point : Int

/-- The digits that a decimal holds at most. -/
def Decimal.capacity : Nat := 800

/-- The power of ten from which on further digits are passed over. -/
def Decimal.powerBound : Nat := 10000

/-- The power of ten that digits write. -/
def Decimal.readPower (digits : List Nat) : Nat :=
  digits.foldl (fun power d => if power < powerBound then power * 10 + d else power) 0

/-- The decimal with the given digits before and after the point, times a power
of ten. -/
def Decimal.ofParts (whole fraction : List Nat) (power : Int) : Decimal :=
  match whole.dropWhile (· == 0) with
  | [] =>
    let significant := fraction.dropWhile (· == 0)
    ⟨significant.take capacity, power - (fraction.length - significant.length : Nat)⟩
  | d :: ds =>
    ⟨(d :: ds ++ fraction).take capacity, power + (min (ds.length + 1) capacity : Nat)⟩

/-- The decimal that a float without underscores writes, less its sign. -/
def Decimal.ofSource (source : Bytes) : Decimal :=
  let isMark := fun b : UInt8 => b == 0x65 || b == 0x45
  let values := fun s : Bytes => s.filterMap Numeral.decimalValue?
  let mantissa := source.takeWhile fun b => !isMark b
  let exponent := (source.dropWhile fun b => !isMark b).drop 1
  let power : Int := readPower (values exponent)
  ofParts (values (mantissa.takeWhile (· != 0x2E))) (values (mantissa.dropWhile (· != 0x2E)))
    (if exponent.head? == some 0x2D then -power else power)

/-! ### Overflow -/

/-- The least magnitude that rounds to infinity: half a unit above the largest
double. -/
def floatLimit : Nat :=
  Nat.pow 2 1024 - Nat.pow 2 970

/-- Whether a decimal is too large for a double.  The limit has 309 digits, so
one with the point further right is, and one without a whole part is not. -/
def Decimal.overflows (d : Decimal) : Bool :=
  !d.digits.isEmpty && 0 < d.point &&
    (309 < d.point ||
      floatLimit * Nat.pow 10 d.digits.length
        ≤ Numeral.positional 10 d.digits * Nat.pow 10 d.point.toNat)

/-- The text for a float that is too large, written without underscores. -/
def floatMessage? (source : Bytes) : Option Bytes :=
  let plain := source.filter (· != 0x5F)
  if (Decimal.ofSource plain).overflows then
    some (ascii "strconv.ParseFloat: parsing " ++ Text.quote plain ++ ascii ": value out of range")
  else none

end Mos6502.Toml
