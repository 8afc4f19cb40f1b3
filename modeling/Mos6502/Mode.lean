/-
Mos6502/Mode.lean

The 13 addressing modes.  A mode fixes how many operand bytes follow the
opcode, hence the size of an instruction, and the punctuation around the
operand in source text.
-/
import Mos6502.Bytes

namespace Mos6502

/-- An addressing mode. -/
inductive Mode where
  /-- A shift of the accumulator: `ASL A`, or a shift without an operand. -/
  | accumulator
  /-- No operand. -/
  | implied
  /-- `#$nn` -/
  | immediate
  /-- `$nn` -/
  | zeroPage
  /-- `$nn,X` -/
  | zeroPageX
  /-- `$nn,Y` -/
  | zeroPageY
  /-- A signed displacement, for conditional branches. -/
  | relative
  /-- `($nn,X)` -/
  | indexedIndirect
  /-- `($nn),Y` -/
  | indirectIndexed
  /-- `$nnnn` -/
  | absolute
  /-- `$nnnn,X` -/
  | absoluteX
  /-- `$nnnn,Y` -/
  | absoluteY
  /-- `($nnnn)`, for `JMP` only. -/
  | absoluteIndirect
deriving DecidableEq, Repr, Inhabited

namespace Mode

/-- Every mode, in the order of their numbers. -/
def all : List Mode :=
  [.accumulator, .implied, .immediate, .zeroPage, .zeroPageX, .zeroPageY, .relative,
   .indexedIndirect, .indirectIndexed, .absolute, .absoluteX, .absoluteY, .absoluteIndirect]

/-- The name of a mode. -/
def name : Mode → String
  | .accumulator => "Accumulator"
  | .implied => "Implied"
  | .immediate => "Immediate"
  | .zeroPage => "ZeroPage"
  | .zeroPageX => "ZeroPageX"
  | .zeroPageY => "ZeroPageY"
  | .relative => "Relative"
  | .indexedIndirect => "IndexedIndirect"
  | .indirectIndexed => "IndirectIndexed"
  | .absolute => "Absolute"
  | .absoluteX => "AbsoluteX"
  | .absoluteY => "AbsoluteY"
  | .absoluteIndirect => "AbsoluteIndirect"

/-- The mode with a given number, counted from zero. -/
def ofNumber? (n : Int) : Option Mode :=
  if n < 0 then none else all[n.toNat]?

/-- The name of a mode, also for a number that no mode has. -/
def display : Option Mode → String
  | some m => m.name
  | none => "InvalidMode"

/-- The number of operand bytes after the opcode. -/
def operandLength : Mode → Nat
  | .accumulator | .implied => 0
  | .immediate | .zeroPage | .zeroPageX | .zeroPageY | .relative
  | .indexedIndirect | .indirectIndexed => 1
  | .absolute | .absoluteX | .absoluteY | .absoluteIndirect => 2

/-- The size of an instruction: the opcode and its operand. -/
def size (m : Mode) : Nat :=
  m.operandLength + 1

/-- The number of operand bytes, also for a number that no mode has. -/
def lengthOf : Option Mode → Nat
  | some m => m.operandLength
  | none => 0

/-- The size of an instruction, also for a number that no mode has. -/
def sizeOf (m : Option Mode) : Nat :=
  lengthOf m + 1

/-- Whether the operand is a word. -/
def isLong (m : Mode) : Bool :=
  m.operandLength == 2

/-- An operand's text with the punctuation of the mode; nothing for the modes
without an operand. -/
def decorate (v : Bytes) : Mode → Bytes
  | .accumulator | .implied => []
  | .immediate => 0x23 :: v
  | .zeroPageX | .absoluteX => v ++ ascii ",X"
  | .zeroPageY | .absoluteY => v ++ ascii ",Y"
  | .absoluteIndirect => 0x28 :: (v ++ ascii ")")
  | .indexedIndirect => 0x28 :: (v ++ ascii ",X)")
  | .indirectIndexed => 0x28 :: (v ++ ascii "),Y")
  | .zeroPage | .relative | .absolute => v

end Mode

end Mos6502
