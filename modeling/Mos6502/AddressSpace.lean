/-
Mos6502/AddressSpace.lean

The 64 KiB address space and tables of symbols in it.  A table is a list of
names with their values; where a name occurs twice, the first entry counts.
-/
import Mos6502.Text.Numeral

namespace Mos6502

/-- The size of the address space. -/
def addressSpace : Nat := 0x10000

/-- The words for bytes at an origin that run past the address space. -/
def overrunText (length : Nat) (origin : UInt16) : Bytes :=
  Numeral.nat length ++ ascii " bytes at " ++ Numeral.wordLiteral origin ++
    ascii " overrun the address space"

/-- A table of symbols: names with their values. -/
abbrev SymbolMap := List (Bytes × UInt16)

/-- A table of section offsets moved to an origin, modulo the address
space. -/
def SymbolMap.relocate (origin : UInt16) (symbols : SymbolMap) : SymbolMap :=
  symbols.map fun (name, offset) => (name, origin + offset)

end Mos6502
