/-
Mos6502/Command/Disassembly.lean

What the disassembler command does with its options.  Its input is an ELF image
of a 6502 program, which brings its own origin, or else a bare image, whose
origin is an option.
-/
import Mos6502.Command.Request
import Mos6502.Disassembly.Listing
import Mos6502.Elf
import Mos6502.Settings.Address
import Mos6502.Settings.Basic

namespace Mos6502.Command.Dis65

/-- The origin of a bare image. -/
def originOf (a : Arguments) : Except AddressError UInt16 :=
  if (a.text "origin").isEmpty then .ok Settings.default.origin
  else parseAddress (a.text "origin")

/-- Code and origin of an input. -/
def codeOf (origin : UInt16) (data : Bytes) : Bytes × UInt16 :=
  match Elf.readImage data with
  | .ok image => (image.code, image.header.entry.toUInt16)
  | .error _ => (data, origin)

/-- The text of an input.  A failure is its message. -/
def textOf (a : Arguments) (data : Bytes) : Except Bytes Bytes :=
  match originOf a with
  | .error e => .error e.message
  | .ok origin =>
    let (code, origin) := codeOf origin data
    match disassemble code ⟨origin, [], a.flag "listing"⟩ with
    | .error e => .error e.message
    | .ok text => .ok text

/-- Prints the text, or writes it to the output file. -/
def finish (a : Arguments) (text : Bytes) : Script :=
  let output := a.positional 1
  if output.isEmpty then .done (.success text)
  else
    .write output text fun
      | .error e => .done (.failure [] e.message)
      | .ok () => .done (.success (ascii "Disassembly written to " ++ output ++ [0x0A]))

/-- The command on its options. -/
def command (a : Arguments) : Script :=
  .read (a.positional 0) fun
    | .error e => .done (.failure [] e.message)
    | .ok data =>
      match textOf a data with
      | .error message => .done (.failure [] message)
      | .ok text => finish a text

end Mos6502.Command.Dis65
