/-
Mos6502/Mnemonic.lean

The 56 official mnemonics of the NMOS 6502, in alphabetical order.  The number
of a mnemonic is its place in that order, counted from one; no mnemonic has
the number zero.

A mnemonic is looked up by name without regard to case.  Case is that of
single characters, so the two characters outside ASCII whose upper-case form
is an ASCII letter, U+0131 for I and U+017F for S, are read as these letters.
-/
import Mos6502.Text.Blank

namespace Mos6502

/-- An official mnemonic. -/
inductive Mnemonic where
  | adc | and | asl | bcc | bcs | beq | bit | bmi
  | bne | bpl | brk | bvc | bvs | clc | cld | cli
  | clv | cmp | cpx | cpy | dec | dex | dey | eor
  | inc | inx | iny | jmp | jsr | lda | ldx | ldy
  | lsr | nop | ora | pha | php | pla | plp | rol
  | ror | rti | rts | sbc | sec | sed | sei | sta
  | stx | sty | tax | tay | tsx | txa | txs | tya
deriving DecidableEq, Repr, Inhabited

namespace Mnemonic

/-- Every mnemonic, in alphabetical order. -/
def all : List Mnemonic :=
  [.adc, .and, .asl, .bcc, .bcs, .beq, .bit, .bmi, .bne, .bpl, .brk, .bvc, .bvs, .clc,
   .cld, .cli, .clv, .cmp, .cpx, .cpy, .dec, .dex, .dey, .eor, .inc, .inx, .iny, .jmp,
   .jsr, .lda, .ldx, .ldy, .lsr, .nop, .ora, .pha, .php, .pla, .plp, .rol, .ror, .rti,
   .rts, .sbc, .sec, .sed, .sei, .sta, .stx, .sty, .tax, .tay, .tsx, .txa, .txs, .tya]

/-- The upper-case name. -/
def name : Mnemonic → String
  | .adc => "ADC"
  | .and => "AND"
  | .asl => "ASL"
  | .bcc => "BCC"
  | .bcs => "BCS"
  | .beq => "BEQ"
  | .bit => "BIT"
  | .bmi => "BMI"
  | .bne => "BNE"
  | .bpl => "BPL"
  | .brk => "BRK"
  | .bvc => "BVC"
  | .bvs => "BVS"
  | .clc => "CLC"
  | .cld => "CLD"
  | .cli => "CLI"
  | .clv => "CLV"
  | .cmp => "CMP"
  | .cpx => "CPX"
  | .cpy => "CPY"
  | .dec => "DEC"
  | .dex => "DEX"
  | .dey => "DEY"
  | .eor => "EOR"
  | .inc => "INC"
  | .inx => "INX"
  | .iny => "INY"
  | .jmp => "JMP"
  | .jsr => "JSR"
  | .lda => "LDA"
  | .ldx => "LDX"
  | .ldy => "LDY"
  | .lsr => "LSR"
  | .nop => "NOP"
  | .ora => "ORA"
  | .pha => "PHA"
  | .php => "PHP"
  | .pla => "PLA"
  | .plp => "PLP"
  | .rol => "ROL"
  | .ror => "ROR"
  | .rti => "RTI"
  | .rts => "RTS"
  | .sbc => "SBC"
  | .sec => "SEC"
  | .sed => "SED"
  | .sei => "SEI"
  | .sta => "STA"
  | .stx => "STX"
  | .sty => "STY"
  | .tax => "TAX"
  | .tay => "TAY"
  | .tsx => "TSX"
  | .txa => "TXA"
  | .txs => "TXS"
  | .tya => "TYA"

/-- The place of a mnemonic in alphabetical order, counted from one. -/
def number (m : Mnemonic) : Nat :=
  all.idxOf m + 1

/-- The mnemonic with a given number. -/
def ofNumber? (n : Int) : Option Mnemonic :=
  if n < 1 then none else all[n.toNat - 1]?

/-- The name of a mnemonic, or three question marks where there is none. -/
def display : Option Mnemonic → String
  | some m => m.name
  | none => "???"

/-- The conditional branches.  They take a signed displacement, never an
address. -/
def isBranch : Mnemonic → Bool
  | .bcc | .bcs | .beq | .bmi | .bne | .bpl | .bvc | .bvs => true
  | _ => false

/-- The shifts and rotates.  They work on the accumulator when they are
written without an operand. -/
def isShift : Mnemonic → Bool
  | .asl | .lsr | .rol | .ror => true
  | _ => false

/-- The mnemonics after which control does not go on to the next
instruction. -/
def isTerminal : Mnemonic → Bool
  | .rts | .rti | .jmp | .brk => true
  | _ => false

/-- A text in upper case, as far as the result is ASCII. -/
def upperCase : Bytes → Bytes
  | 0xC4 :: 0xB1 :: rest => 0x49 :: upperCase rest
  | 0xC5 :: 0xBF :: rest => 0x53 :: upperCase rest
  | b :: rest => Byte.toUpper b :: upperCase rest
  | [] => []

/-- Every mnemonic under its name. -/
def byName : List (Bytes × Mnemonic) :=
  all.map fun m => (ascii m.name, m)

/-- The mnemonic with a given name, in any case and with blanks around it. -/
def ofName? (s : Bytes) : Option Mnemonic :=
  byName.lookup (upperCase (Text.trim s))

end Mnemonic

end Mos6502
