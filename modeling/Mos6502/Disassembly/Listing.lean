/-
Mos6502/Disassembly/Listing.lean

The text of a disassembly.  A plain text is assembly source again.  A listing
has a margin of fifteen characters in front of every line that stands for
bytes: the address in four digits, two spaces, and nine columns that hold the
bytes of an instruction and stay empty for data.
-/
import Mos6502.Disassembly.Layout
import Mos6502.Fault
import Mos6502.Text.Columns

namespace Mos6502

open Text

/-! ### Lines as text -/

namespace Instruction

/-- The operand value as text: the label of the destination, or a literal as
wide as the operand. -/
def valueText (labelAt? : UInt16 → Option Bytes) (i : Instruction) : Bytes :=
  match i.target? with
  | some target => (labelAt? target).getD (Numeral.wordLiteral target)
  | none =>
    if i.mode.isLong then Numeral.wordLiteral i.operand
    else 0x24 :: Numeral.hexAtLeast 2 i.operand.toNat

/-- The source form, with the mnemonic in four columns. -/
def text (labelAt? : UInt16 → Option Bytes) (i : Instruction) : Bytes :=
  match i.mode with
  | .accumulator | .implied => ascii i.mnemonic.name
  | mode => padRight 4 (ascii i.mnemonic.name) ++ mode.decorate (i.valueText labelAt?)

end Instruction

/-- The margin of a listing. -/
def margin (address : UInt16) (bytes : Bytes) : Bytes :=
  Numeral.word address ++ ascii "  " ++ padRight 9 (joinWith [0x20] (bytes.map Numeral.byte))

namespace Line

/-- The margin of a line: none for a label. -/
def marginText : Line → Bytes
  | .label _ => []
  | .code i => margin i.address i.bytes
  | .data address _ => margin address []

/-- A line without margin and line feed. -/
def plainText (labelAt? : UInt16 → Option Bytes) : Line → Bytes
  | .label name => name ++ [0x3A]
  | .code i => ascii "    " ++ dropTrailingSpaces (i.text labelAt?)
  | .data _ bytes =>
    ascii "    .byte " ++ joinWith [0x2C] (bytes.map fun b => 0x24 :: Numeral.byte b)

/-- A line as text, with its line feed. -/
def text (listing : Bool) (labelAt? : UInt16 → Option Bytes) (line : Line) : Bytes :=
  (if listing then line.marginText else []) ++ line.plainText labelAt? ++ [0x0A]

end Line

/-! ### Disassembling -/

/-- How an image is disassembled. -/
structure DisassemblyOptions where
  /-- The address of the first byte. -/
  origin : UInt16
  /-- Names of addresses; those inside the image are also where code starts. -/
  symbols : SymbolMap
  /-- Whether lines have a margin with address and bytes. -/
  listing : Bool
deriving DecidableEq, Repr

/-- An image that runs past the address space. -/
structure OverrunError where
  length : Nat
  origin : UInt16
deriving DecidableEq, Repr

/-- The text of an overrun. -/
def OverrunError.message (e : OverrunError) : Bytes :=
  overrunText e.length e.origin

instance : Diagnostic OverrunError where
  fault e := .other e.message
  message := OverrunError.message
  symbol? _ := none

/-- The text of an image.  An empty image has an empty text, wherever it
lies. -/
def disassemble (code : Bytes) (options : DisassemblyOptions) : Except OverrunError Bytes :=
  if code.isEmpty then .ok []
  else if addressSpace < options.origin.toNat + code.length then
    .error ⟨code.length, options.origin⟩
  else
    let analysis := Analysis.ofImage options.origin options.symbols code
    .ok ((analysis.lines code).flatMap (Line.text options.listing analysis.labelAt?))

end Mos6502
