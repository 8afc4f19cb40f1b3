/-
Mos6502/Command/Dump.lean

The symbol and relocation tables in colour, for a terminal.  Colours are set
by escape sequences: a number in brackets, the text, and a reset; bold text
has a second sequence.
-/
import Mos6502.Section

namespace Mos6502.Command

/-! ### Colours -/

/-- The sequence that sets a style. -/
def style (n : Nat) : Bytes :=
  [0x1B, 0x5B] ++ Numeral.nat n ++ ascii "m"

/-- A text in a colour. -/
def coloured (colour : Nat) (s : Bytes) : Bytes :=
  style colour ++ s ++ style 0

/-- A text in a colour and bold. -/
def bold (colour : Nat) (s : Bytes) : Bytes :=
  style colour ++ style 1 ++ s ++ style 0

/-- A text between bold quotes. -/
def colouredText (s : Bytes) : Bytes :=
  bold 31 [0x22] ++ coloured 31 s ++ bold 31 [0x22]

/-- A number. -/
def colouredNumber (n : Int) : Bytes :=
  bold 34 (Numeral.int n)

/-! ### Tables -/

/-- The order of symbols by name. -/
def nameBefore (a b : Bytes × UInt16) : Bool :=
  a.1 ≤ b.1

/-- One symbol; its value stands in the column after the longest name. -/
def dumpSymbol (longest : Nat) (entry : Bytes × UInt16) : Bytes :=
  ascii "  " ++ colouredText entry.1 ++ ascii ": " ++
    List.replicate (longest - entry.1.length) 0x20 ++ colouredNumber entry.2.toNat ++ ascii ",\n"

/-- The table of symbols, by name. -/
def dumpSymbols (symbols : SymbolMap) : Bytes :=
  let longest := symbols.foldl (fun n entry => max n entry.1.length) 0
  let body :=
    if symbols.isEmpty then []
    else 0x0A :: (symbols.mergeSort nameBefore).flatMap (dumpSymbol longest)
  coloured 32 (ascii "map[string]uint16") ++ ascii "\x7b" ++ body ++ ascii "\x7d\n"

/-- One relocation. -/
def dumpRelocation (r : Relocation) : Bytes :=
  let field := fun (name gap : String) (value : Bytes) =>
    ascii "    " ++ coloured 33 (ascii name) ++ ascii gap ++ value ++ ascii ",\n"
  ascii "  assembler." ++ coloured 32 (ascii "Relocation") ++ ascii "\x7b\n" ++
    field "Symbol" ": " (colouredText r.symbol) ++
    field "Offset" ": " (colouredNumber r.offset.toNat) ++
    field "Kind" ":   " (colouredNumber r.kind.number) ++ ascii "  \x7d,\n"

/-- The most relocations that are listed one by one. -/
def mostListed : Nat := 1024

/-- The list of relocations; a longer one is folded. -/
def dumpRelocations (relocations : List Relocation) : Bytes :=
  let body :=
    if relocations.isEmpty then ascii "(" ++ bold 36 (ascii "nil") ++ ascii ")"
    else if mostListed < relocations.length then ascii "\x7b...\x7d"
    else ascii "\x7b\n" ++ relocations.flatMap dumpRelocation ++ ascii "\x7d"
  ascii "[]assembler." ++ coloured 32 (ascii "Relocation") ++ body ++ ascii "\n"

/-- Both tables of a program. -/
def dump (p : Program) : Bytes :=
  dumpSymbols p.symbolMap ++ dumpRelocations p.relocations

end Mos6502.Command
