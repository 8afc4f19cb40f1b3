/-
Mos6502/Fault.lean

The classes of failure that the assembler, the linker and the tools report.
Each error type of this library says what went wrong in its own terms; its
`fault` is the class it belongs to and its `message` the text that a user
reads.  A `SymbolError` is a fault tied to a symbol, with the line of the
source and some detail where they are known.
-/
import Mos6502.Text.Numeral

namespace Mos6502

/-- A class of failure. -/
inductive Fault where
  /-- The text is not in the language. -/
  | malformed
  | unknownMnemonic
  /-- The mnemonic has no opcode for the addressing mode. -/
  | unsupportedMode
  | duplicateLabel
  | undefinedSymbol
  | branchOutOfRange
  | operandTooWide
  | valueOutOfRange
  /-- The output format is none of those known. -/
  | unknownFormat
  | invalidExtern
  | invalidAddress
  /-- The data is no ELF image of a 6502 program. -/
  | notImage
  /-- A failure outside these classes. -/
  | other (text : Bytes)
deriving DecidableEq, Repr

/-- The words for a class of failure. -/
def Fault.text : Fault → Bytes
  | .malformed => ascii "syntax error"
  | .unknownMnemonic => ascii "unknown mnemonic"
  | .unsupportedMode => ascii "unsupported addressing mode"
  | .duplicateLabel => ascii "duplicate label"
  | .undefinedSymbol => ascii "undefined symbol"
  | .branchOutOfRange => ascii "branch out of range"
  | .operandTooWide => ascii "operand too wide"
  | .valueOutOfRange => ascii "value out of range"
  | .unknownFormat => ascii "unknown output format"
  | .invalidExtern => ascii "invalid extern"
  | .invalidAddress => ascii "invalid address"
  | .notImage => ascii "not a 6502 ELF image"
  | .other text => text

/-- A fault tied to a symbol. -/
structure SymbolError where
  symbol : Bytes
  /-- The source line, or zero where there is none. -/
  line : Int
  fault : Fault
  /-- More about the cause; empty where there is no more to say. -/
  detail : Bytes
deriving DecidableEq, Repr

/-- A line number in front of a message. -/
def atLine (line : Int) (message : Bytes) : Bytes :=
  ascii "line " ++ Numeral.int line ++ ascii ": " ++ message

/-- The text of a symbol error: its line if that is positive, the fault, the
symbol, and the detail in parentheses if there is one. -/
def SymbolError.message (e : SymbolError) : Bytes :=
  let detail := if e.detail.isEmpty then [] else ascii " (" ++ e.detail ++ ascii ")"
  let text := e.fault.text ++ ascii ": " ++ e.symbol ++ detail
  if 0 < e.line then atLine e.line text else text

/-- What every error type of this library tells: its class, its text, and the
symbol it is tied to, if any. -/
class Diagnostic (ε : Type) where
  fault : ε → Fault
  message : ε → Bytes
  symbol? : ε → Option SymbolError

instance : Diagnostic SymbolError where
  fault := SymbolError.fault
  message := SymbolError.message
  symbol? := some

end Mos6502
