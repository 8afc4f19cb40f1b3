/-
Mos6502/Disassembly/Layout.lean

The lines of a disassembly.  Reading the image from its start, an offset that
control reaches gives an instruction line, and what lies inside that
instruction is skipped; bytes in between go to data lines of at most eight
bytes.  A label is declared in front of the line that starts at its address,
and a data line ends before a labelled address.  A label that points into the
middle of an instruction has no such line and is not declared.

The lines tile the image: every byte is on exactly one of them, in order.
-/
import Mos6502.Disassembly.Label

namespace Mos6502

/-- One line of a disassembly. -/
inductive Line where
  /-- The declaration of a label. -/
  | label (name : Bytes)
  /-- An instruction. -/
  | code (i : Instruction)
  /-- Bytes that are no code, from an address on. -/
  | data (address : UInt16) (bytes : Bytes)
deriving DecidableEq, Repr

/-- The image bytes on a line. -/
def Line.bytes : Line → Bytes
  | .label _ => []
  | .code i => i.bytes
  | .data _ bytes => bytes

/-- The most bytes on a data line. -/
def bytesPerLine : Nat := 8

namespace Analysis

/-- Whether a data line ends before an offset: code or a label is there. -/
def breaksData (a : Analysis) (offset : Nat) : Bool :=
  (a.codeAt? offset).isSome || (a.labelAt? (a.addressOf offset)).isSome

/-- How many of the next bytes, at most `limit`, go on the same data line. -/
def dataRun (a : Analysis) : Nat → Nat → Bytes → Nat
  | 0, _, _ => 0
  | _, _, [] => 0
  | limit + 1, offset, _ :: rest =>
    if a.breaksData offset then 0 else a.dataRun limit (offset + 1) rest + 1

/-- The declaration in front of the line at an offset, if there is one. -/
def declaration (a : Analysis) (offset : Nat) : Array Line :=
  match a.labelAt? (a.addressOf offset) with
  | some name => #[.label name]
  | none => #[]

/-- Adds the lines of the image from an offset on; `rest` is the image from
there. -/
def linesFrom (a : Analysis) (offset : Nat) (rest : Bytes) (acc : Array Line) : Array Line :=
  match rest with
  | [] => acc
  | b :: tail =>
    let acc := acc ++ a.declaration offset
    match a.codeAt? offset with
    | some i =>
      let more := i.mode.operandLength
      a.linesFrom (offset + 1 + more) (tail.drop more) (acc.push (.code i))
    | none =>
      let more := a.dataRun (bytesPerLine - 1) (offset + 1) tail
      a.linesFrom (offset + 1 + more) (tail.drop more)
        (acc.push (.data (a.addressOf offset) (b :: tail.take more)))
termination_by rest.length
decreasing_by
  all_goals
    simp only [List.length_drop, List.length_cons]
    omega

/-- The declaration of a symbol at the end of the image, unless that is past
the last address. -/
def endLabel (a : Analysis) (length : Nat) : List Line :=
  if a.origin.toNat + length < addressSpace then
    (a.symbols.nameAt? (a.addressOf length)).toList.map .label
  else []

/-- The lines of an image. -/
def lines (a : Analysis) (code : Bytes) : List Line :=
  (a.linesFrom 0 code #[]).toList ++ a.endLabel code.length

end Analysis

end Mos6502
