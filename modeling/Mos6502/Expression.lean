/-
Mos6502/Expression.lean

One instruction of a program: mnemonic, addressing mode and operand value.
The value is known (`number`), a symbol to be resolved later (`label`), or the
destination of a branch that becomes a displacement as soon as the address of
the branch is known (`target`).

`Expression.text` is the source form.  A literal is written with two digits
where the operand is a byte and with four where it is a word or a branch
destination, so reading it back chooses the same mode.
-/
import Mos6502.Opcode
import Mos6502.Text.Numeral

namespace Mos6502

/-- The operand value of an expression. -/
inductive Value where
  /-- No operand. -/
  | none
  /-- A literal.  For a branch it is the displacement byte. -/
  | number (n : UInt16)
  /-- A reference to a symbol. -/
  | label (name : Bytes)
  /-- The destination of a branch, written as a long literal. -/
  | target (n : UInt16)
deriving DecidableEq, Repr, Inhabited

namespace Value

/-- The name of the kind of a value. -/
def kindName : Value → String
  | .none => "none"
  | .number _ => "numeric"
  | .label _ => "label"
  | .target _ => "target"

/-- The number of a value; zero where it has none. -/
def numberPart : Value → UInt16
  | .number n | .target n => n
  | .none | .label _ => 0

/-- The symbol of a value; empty where it has none. -/
def labelPart : Value → Bytes
  | .label name => name
  | .none | .number _ | .target _ => []

/-- The value with a kind given by number, counted from zero; a number that no
kind has gives no value. -/
def ofKindNumber (kind : Int) (n : UInt16) (name : Bytes) : Value :=
  match kind with
  | 1 => .number n
  | 2 => .label name
  | 3 => .target n
  | _ => .none

/-- The source text of a value, in an operand that is a word or is not. -/
def text (long : Bool) : Value → Bytes
  | .none => []
  | .label name => name
  | .target n => Numeral.wordLiteral n
  | .number n => if long then Numeral.wordLiteral n else 0x24 :: Numeral.hexAtLeast 2 n.toNat

end Value

/-- One instruction of a program. -/
structure Expression where
  mnemonic : Mnemonic
  mode : Mode
  operand : Value
  /-- The source line. -/
  line : Int
deriving DecidableEq, Repr, Inhabited

/-- The source form of a mnemonic in a mode with a value.  Mnemonic and mode
may be unknown: an unknown mode puts nothing around the operand. -/
def sourceForm (mnemonic : Option Mnemonic) (mode : Option Mode) (value : Value) : Bytes :=
  let name := ascii (Mnemonic.display mnemonic)
  match mode with
  | some .accumulator | some .implied => name
  | some m => name ++ 0x20 :: m.decorate (value.text m.isLong)
  | none => name ++ 0x20 :: value.text false

namespace Expression

/-- The encoded length in bytes. -/
def size (e : Expression) : Nat :=
  e.mode.size

/-- The opcode byte, if the mnemonic has the mode. -/
def opcode? (e : Expression) : Option UInt8 :=
  Opcode.encode? e.mnemonic e.mode

/-- The source form. -/
def text (e : Expression) : Bytes :=
  sourceForm (some e.mnemonic) (some e.mode) e.operand

end Expression

end Mos6502
