/-
Mos6502/Command/Asm65.lean

The assembler command on its arguments: their spelling, and TOML as the
language of settings files.
-/
import Mos6502.Command.Build
import Mos6502.Command.Options
import Mos6502.Settings.Decode

namespace Mos6502.Command.Asm65

/-- The options of the assembler. -/
def spec : Spec where
  name := "asm65"
  options :=
    [⟨'o', "output", "Output file. Defaults to the source name with the format's extension.",
        .text []⟩,
     ⟨'c', "config", "TOML build configuration.", .text []⟩,
     ⟨'f', "format", "Output format.", .text [Settings.elf, Settings.bin]⟩,
     ⟨'O', "origin", "Load address, e.g. $0600.", .text []⟩,
     ⟨'l', "listing", "Print a listing of the linked code.", .flag⟩,
     ⟨'d', "dump", "Dump the symbol and relocation tables.", .flag⟩,
     ⟨'v', "verbose", "Report what was written.", .flag⟩]
  positionals := [⟨"SOURCE", "Assembly source file."⟩]

/-- The command on its arguments. -/
def script (args : List Bytes) : Script :=
  dispatch spec.help (command Settings.decodeText) (spec.request args)

end Mos6502.Command.Asm65
