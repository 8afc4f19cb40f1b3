/-
Mos6502/Disassembly/Label.lean

The labels of a disassembly.  An address that symbols name takes the smallest
of their names.  Any other address inside the image that some code jumps to
takes a name made from the address: `sub_` and four digits if a `JSR` is among
the jumps, else `L` and four digits.

The made-up labels are computed from the set of marked offsets alone, so they
do not depend on the order in which the offsets were marked.
-/
import Mos6502.Disassembly.Reach
import Mos6502.Text.Numeral

namespace Mos6502

/-- Why an address has a made-up label. -/
inductive LabelKind where
  /-- Some code branches or jumps there. -/
  | jump
  /-- Some code calls it. -/
  | subroutine
deriving DecidableEq, Repr

/-- The made-up label of an address. -/
def LabelKind.labelName (address : UInt16) : LabelKind → Bytes
  | .jump => 0x4C :: Numeral.word address
  | .subroutine => ascii "sub_" ++ Numeral.word address

/-- The smaller of a name and the smallest so far. -/
def smallerName (best : Option Bytes) (name : Bytes) : Option Bytes :=
  match best with
  | none => some name
  | some other => some (if name < other then name else other)

/-- The smallest name that a table gives to an address. -/
def SymbolMap.nameAt? (symbols : SymbolMap) (address : UInt16) : Option Bytes :=
  symbols.foldl (fun best entry => if entry.2 == address then smallerName best entry.1 else best)
    none

/-- The instructions at the marked offsets, in order. -/
def markedInstructions (s : Sweep) (marked : Array Bool) : List Instruction :=
  (s.toList.zip marked.toList).filterMap fun (i, isMarked) => if isMarked then i else none

/-- The kind of label after one more jump to the address. -/
def LabelKind.join (call : Bool) (kind : Option LabelKind) : Option LabelKind :=
  if call then some .subroutine else some (kind.getD .jump)

/-- Records where an instruction jumps to. -/
def addTarget (origin : UInt16) (kinds : Array (Option LabelKind)) (i : Instruction) :
    Array (Option LabelKind) :=
  match i.targetOffset? origin kinds.size with
  | none => kinds
  | some offset => kinds.modify offset (LabelKind.join i.isCall)

/-- For every offset of the image, whether it has a made-up label and of which
kind. -/
def labelKinds (origin : UInt16) (s : Sweep) (marked : Array Bool) : Array (Option LabelKind) :=
  (markedInstructions s marked).foldl (addTarget origin) (Array.replicate s.size none)

/-- What is known of an image before it is written out. -/
structure Analysis where
  origin : UInt16
  symbols : SymbolMap
  sweep : Sweep
  /-- For every offset, whether control reaches it. -/
  marked : Array Bool
  /-- For every offset, its made-up label. -/
  kinds : Array (Option LabelKind)

namespace Analysis

/-- Analyses an image. -/
def ofImage (origin : UInt16) (symbols : SymbolMap) (code : Bytes) : Analysis :=
  let s := Mos6502.sweep origin code
  let marked := markAll origin s symbols
  ⟨origin, symbols, s, marked, labelKinds origin s marked⟩

/-- The address of an offset. -/
def addressOf (a : Analysis) (offset : Nat) : UInt16 :=
  a.origin + offset.toUInt16

/-- The instruction at an offset that control reaches. -/
def codeAt? (a : Analysis) (offset : Nat) : Option Instruction :=
  if a.marked[offset]?.getD false then a.sweep.at? offset else none

/-- The made-up label of an address. -/
def madeUpAt? (a : Analysis) (address : UInt16) : Option Bytes := do
  let offset ← offsetOf? a.origin a.kinds.size address
  let kind ← (a.kinds[offset]?).join
  return kind.labelName address

/-- The label of an address. -/
def labelAt? (a : Analysis) (address : UInt16) : Option Bytes :=
  match a.symbols.nameAt? address with
  | some name => some name
  | none => a.madeUpAt? address

end Analysis

end Mos6502
