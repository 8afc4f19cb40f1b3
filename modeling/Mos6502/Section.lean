/-
Mos6502/Section.lean

A relocatable section: bytes, the relocations that a linker has to apply, and
the symbols that the section declares.

A program is emitted expression by expression.  A label operand becomes
placeholder bytes and a relocation, also when the label is declared in the
program.  Branches are the exception: their destination lies in the program,
so the displacement is written out, and the relocation only names it.
-/
import Mos6502.Program.Build
import Mos6502.Text.Columns

namespace Mos6502

/-! ### Relocations -/

/-- How a relocation is applied. -/
inductive RelocationKind where
  /-- A value of one byte. -/
  | short
  /-- An address of two bytes. -/
  | long
  /-- The address of a pointer, for `JMP (label)`: two bytes. -/
  | absolute
  /-- A signed displacement from the next instruction: one byte. -/
  | relative
  /-- A kind that no linker knows, by its number. -/
  | unknown (number : Int)
deriving DecidableEq, Repr

namespace RelocationKind

/-- The name of a kind. -/
def name : RelocationKind → String
  | .short => "short"
  | .long => "long"
  | .absolute => "absolute"
  | .relative => "relative"
  | .unknown _ => "unknown"

/-- The number of bytes that a kind patches. -/
def width : RelocationKind → Nat
  | .long | .absolute => 2
  | .short | .relative | .unknown _ => 1

/-- The number of a kind, counted from zero. -/
def number : RelocationKind → Int
  | .short => 0
  | .long => 1
  | .absolute => 2
  | .relative => 3
  | .unknown n => n

/-- The kind with a given number. -/
def ofNumber : Int → RelocationKind
  | 0 => .short
  | 1 => .long
  | 2 => .absolute
  | 3 => .relative
  | n => .unknown n

/-- The kind for a label operand in a mode. -/
def ofMode : Mode → RelocationKind
  | .absolute | .absoluteX | .absoluteY => .long
  | .absoluteIndirect => .absolute
  | .relative => .relative
  | _ => .short

end RelocationKind

/-- A patch of a section that waits for the value of a symbol. -/
structure Relocation where
  symbol : Bytes
  offset : UInt16
  kind : RelocationKind
deriving DecidableEq, Repr

/-- A relocation as text: offset, kind in eight columns, symbol. -/
def Relocation.text (r : Relocation) : Bytes :=
  Numeral.word r.offset ++ 0x20 :: Text.padRight 8 (ascii r.kind.name) ++ 0x20 :: r.symbol

/-- A section ready for a linker. -/
structure Section where
  raw : Bytes
  relocations : List Relocation
  symbols : SymbolMap
deriving DecidableEq, Repr

/-! ### Emission -/

/-- Why a program cannot be emitted. -/
inductive EmitError where
  /-- The mnemonic has no opcode for its mode. -/
  | unsupported (line : Int) (mnemonic : Mnemonic) (mode : Mode)
  /-- A branch whose destination is undeclared or does not reach. -/
  | symbol (cause : SymbolError)
deriving DecidableEq, Repr

namespace EmitError

/-- The class of an emission error. -/
def fault : EmitError → Fault
  | .unsupported .. => .unsupportedMode
  | .symbol cause => cause.fault

/-- The text of an emission error. -/
def message : EmitError → Bytes
  | .unsupported line mnemonic mode =>
    (ExpressionError.unsupported line mnemonic mode).message
  | .symbol cause => cause.message

/-- The symbol an emission error is tied to. -/
def symbol? : EmitError → Option SymbolError
  | .unsupported .. => none
  | .symbol cause => some cause

end EmitError

instance : Diagnostic EmitError where
  fault := EmitError.fault
  message := EmitError.message
  symbol? := EmitError.symbol?

/-- The byte that holds the place of an operand byte. -/
def placeholder : UInt8 := 0xFF

/-- The operand bytes of a value in a mode that is no branch. -/
def operandBytes (mode : Mode) (value : Value) : Bytes :=
  match mode.operandLength, value with
  | 0, _ => []
  | 1, .label _ => [placeholder]
  | 1, v => [Word.lo v.numberPart]
  | _, .label _ => [placeholder, placeholder]
  | _, v => Word.toBytes v.numberPart

namespace Program

/-- The displacement byte of a branch. -/
def branchByte (p : Program) (i : Placed) : Except SymbolError UInt8 :=
  match i.expression.operand with
  | .label name =>
    match p.symbol? name with
    | none => .error ⟨name, i.expression.line, .undefinedSymbol, ascii "branch target"⟩
    | some symbol =>
      match displacement symbol.address i.address with
      | .ok d => .ok d
      | .error distance =>
        .error ⟨name, i.expression.line, .branchOutOfRange, distanceDetail distance⟩
  | v => .ok (Word.lo v.numberPart)

/-- The bytes of one expression. -/
def emit (p : Program) (i : Placed) : Except EmitError Bytes :=
  match i.expression.opcode? with
  | none => .error (.unsupported i.expression.line i.expression.mnemonic i.expression.mode)
  | some opcode =>
    if i.expression.mode == .relative then
      match p.branchByte i with
      | .ok d => .ok [opcode, d]
      | .error cause => .error (.symbol cause)
    else .ok (opcode :: operandBytes i.expression.mode i.expression.operand)

/-- The bytes of the section, with placeholders for label operands. -/
def rawBytes (p : Program) : Except EmitError Bytes := do
  let parts ← p.code.toList.mapM p.emit
  return parts.flatten

/-- The relocation of an expression with a label operand, at its first operand
byte. -/
def relocation? (i : Placed) : Option Relocation :=
  match i.expression.operand with
  | .label name => some ⟨name, (i.address + 1).toUInt16, .ofMode i.expression.mode⟩
  | _ => none

/-- One relocation for each label operand, in order. -/
def relocations (p : Program) : List Relocation :=
  p.code.toList.filterMap relocation?

/-- The program as a section. -/
def toSection (p : Program) : Except EmitError Section := do
  return ⟨← p.rawBytes, p.relocations, p.symbolMap⟩

end Program

end Mos6502
