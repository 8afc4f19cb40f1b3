/-
Mos6502/Settings/Address.lean

Address numerals.  An address is written in hexadecimal after `$`, `0x` or
`0X`, or in decimal; white space around it is ignored and leading zeros are
free.  The value has to fit in a word.
-/
import Mos6502.Fault
import Mos6502.Text.Blank
import Mos6502.Text.Quoted

namespace Mos6502

/-- A text that is no address numeral, by what follows its base mark. -/
structure AddressError where
  digits : Bytes
deriving DecidableEq, Repr

/-- The text of an address error. -/
def AddressError.message (e : AddressError) : Bytes :=
  Fault.invalidAddress.text ++ ascii ": " ++ Text.quote e.digits

instance : Diagnostic AddressError where
  fault _ := .invalidAddress
  message := AddressError.message
  symbol? _ := none

/-- The digits of a numeral without its base mark, and whether they are
hexadecimal. -/
def splitNumeral : Bytes → Bool × Bytes
  | 0x24 :: digits => (true, digits)
  | 0x30 :: 0x78 :: digits => (true, digits)
  | 0x30 :: 0x58 :: digits => (true, digits)
  | digits => (false, digits)

/-- Reads an address. -/
def parseAddress (s : Bytes) : Except AddressError UInt16 :=
  let (isHex, digits) := splitNumeral (Text.trim s)
  match if isHex then Numeral.readHex? digits else Numeral.readDecimal? digits with
  | some n => if n ≤ 0xFFFF then .ok n.toUInt16 else .error ⟨digits⟩
  | none => .error ⟨digits⟩

end Mos6502
