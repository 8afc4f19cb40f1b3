/-
Mos6502/Command/Dis65.lean

The disassembler command on its arguments.
-/
import Mos6502.Command.Disassembly
import Mos6502.Command.Options

namespace Mos6502.Command.Dis65

/-- The options of the disassembler. -/
def spec : Spec where
  name := "dis65"
  options :=
    [⟨'O', "origin", "Load address of a raw binary, e.g. $0600.", .text []⟩,
     ⟨'l', "listing", "Prefix lines with address and bytes.", .flag⟩]
  positionals :=
    [⟨"INPUT", "ELF image or raw binary."⟩,
     ⟨"OUTPUT", "Output file. Defaults to standard output."⟩]

/-- The command on its arguments. -/
def script (args : List Bytes) : Script :=
  dispatch spec.help command (spec.request args)

end Mos6502.Command.Dis65
