/-
Mos6502/Program/Basic.lean

A program: its expressions with their addresses, the symbol table in the
order of declaration, and the size of the section.  Addresses are counted
from the start of the section and may take the value 0x10000, one past the
last address, so they are natural numbers here.
-/
import Mos6502.AddressSpace
import Mos6502.Expression

namespace Mos6502

/-- An expression at its address in the section. -/
structure Placed where
  address : Nat
  expression : Expression
deriving DecidableEq, Repr, Inhabited

/-- An entry of the symbol table. -/
structure Symbol where
  name : Bytes
  address : Nat
  /-- The expression that the label stands in front of; none for a label after
  the last instruction. -/
  index : Option Nat
  /-- The line of its declaration. -/
  line : Int
deriving DecidableEq, Repr, Inhabited

/-- An assembled program. -/
structure Program where
  /-- The expressions in order, each at its address. -/
  code : Array Placed
  /-- The symbol table, in the order of declaration. -/
  symbols : Array Symbol
  /-- The size of the section in bytes. -/
  size : Nat
deriving DecidableEq, Repr, Inhabited

namespace Program

/-- The expressions in order. -/
def expressions (p : Program) : List Expression :=
  p.code.toList.map Placed.expression

/-- The addresses of the expressions, in order. -/
def addresses (p : Program) : List Nat :=
  p.code.toList.map Placed.address

/-- The symbol with a given name. -/
def symbol? (p : Program) (name : Bytes) : Option Symbol :=
  p.symbols.find? fun s => s.name == name

/-- The address of a symbol as a word. -/
def lookup? (p : Program) (name : Bytes) : Option UInt16 :=
  (p.symbol? name).map fun s => s.address.toUInt16

/-- The expression that a label stands in front of; none for an unknown name
and for a label after the last instruction. -/
def definition? (p : Program) (name : Bytes) : Option Expression := do
  let symbol ← p.symbol? name
  let index ← symbol.index
  let placed ← p.code[index]?
  return placed.expression

/-- The labels in the order of declaration. -/
def labels (p : Program) : List Bytes :=
  p.symbols.toList.map Symbol.name

/-- The order of labels by address, then by name. -/
def labelBefore (a b : Symbol) : Bool :=
  a.address < b.address || (a.address == b.address && a.name ≤ b.name)

/-- The labels by address, then by name. -/
def sortedLabels (p : Program) : List Bytes :=
  (p.symbols.toList.mergeSort labelBefore).map Symbol.name

/-- Every label with its offset in the section. -/
def symbolMap (p : Program) : SymbolMap :=
  p.symbols.toList.map fun s => (s.name, s.address.toUInt16)

end Program

end Mos6502
