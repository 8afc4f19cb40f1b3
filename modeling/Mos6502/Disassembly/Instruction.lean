/-
Mos6502/Disassembly/Instruction.lean

Decoding machine code.  An instruction is read off the front of a byte string:
its opcode byte, then as many operand bytes as the mode has.  If they are not
all there, there is no instruction, so a decoded instruction is always
complete.

The sweep of an image holds, for every offset, the instruction that starts
there.
-/
import Mos6502.Displacement
import Mos6502.Opcode

namespace Mos6502

/-- A complete instruction at an address. -/
structure Instruction where
  address : UInt16
  mnemonic : Mnemonic
  mode : Mode
  operand : UInt16
  /-- The bytes it was decoded from. -/
  bytes : Bytes
deriving DecidableEq, Repr, Inhabited

/-- An operand of so many bytes off the front of a byte string. -/
def readOperand? : Nat → Bytes → Option UInt16
  | 0, _ => some 0
  | 1, l :: _ => some l.toUInt16
  | 2, l :: h :: _ => some (Word.ofBytes l h)
  | _, _ => none

/-- The integer's residue as a word. -/
def wordOfInt (n : Int) : UInt16 :=
  UInt16.ofNat (n % 0x10000).toNat

/-- Where control may go from an instruction of `length` bytes other than to
the next one: a branch adds its displacement to the address after it, modulo
the address space, and `JMP` and `JSR` name an address.  Mnemonic and mode may
be unknown; then there is no such place unless the mode alone tells. -/
def destination? (mnemonic : Option Mnemonic) (mode : Option Mode) (address operand : UInt16)
    (length : Nat) : Option UInt16 :=
  match mode with
  | some .relative => some (wordOfInt (address.toNat + length + signedByte (Word.lo operand)))
  | some .absolute =>
    if mnemonic == some .jmp || mnemonic == some .jsr then some operand else none
  | _ => none

namespace Instruction

/-- The instruction at the front of a byte string. -/
def fetch? (address : UInt16) : Bytes → Option Instruction
  | [] => none
  | b :: rest =>
    match Opcode.decode? b with
    | none => none
    | some row =>
      match readOperand? row.mode.operandLength rest with
      | none => none
      | some operand =>
        some ⟨address, row.mnemonic, row.mode, operand, b :: rest.take row.mode.operandLength⟩

/-- Where control may go other than to the next instruction. -/
def target? (i : Instruction) : Option UInt16 :=
  destination? (some i.mnemonic) (some i.mode) i.address i.operand i.bytes.length

/-- Whether an instruction calls a subroutine. -/
def isCall (i : Instruction) : Bool :=
  i.mnemonic == .jsr

end Instruction

/-- The instruction at every offset of an image. -/
abbrev Sweep := Array (Option Instruction)

/-- Adds the instructions at every offset of a byte string to a sweep. -/
def sweepFrom (address : UInt16) : Bytes → Sweep → Sweep
  | [], acc => acc
  | b :: rest, acc =>
    sweepFrom (address + 1) rest (acc.push (Instruction.fetch? address (b :: rest)))

/-- The sweep of an image at an origin. -/
def sweep (origin : UInt16) (code : Bytes) : Sweep :=
  sweepFrom origin code #[]

/-- The instruction at an offset of a sweep. -/
def Sweep.at? (s : Sweep) (offset : Nat) : Option Instruction :=
  (s[offset]?).join

end Mos6502
