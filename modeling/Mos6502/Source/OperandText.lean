/-
Mos6502/Source/OperandText.lean

The texts of operands.  With `v` a literal (`$` and hexadecimal digits) or an
identifier, and blanks allowed where a space is shown, the six forms are

    v      # v      v , X      ( v )      ( v , X )      ( v ) , Y

where `v , X` also takes `Y` and an index letter may be of either case.

Every form but the first has a pattern.  A pattern knows the signs of its form,
but takes much more than a value for one.  The patterns are tried one after the
other, most specific first, and a text that fits none of them is in the first
form.  Only then is it checked that the value is a literal or an identifier.
-/
import Mos6502.Source.Node

namespace Mos6502

/-- A text without its leading blanks, the blanks being those of a line's
inside. -/
def skipBlanks (s : Bytes) : Bytes :=
  s.dropWhile Byte.isBlank

/-- Whether a text is a literal or an identifier. -/
def isValue : Bytes → Bool
  | 0x24 :: digits => !digits.isEmpty && digits.all Byte.isHexDigit
  | s => isIdentifier s

namespace Operand

/-- The letter X. -/
def letterX : UInt8 := 0x58

/-- The letter Y. -/
def letterY : UInt8 := 0x59

/-! ### Patterns -/

/-- A piece of a pattern. -/
inductive Piece where
  /-- One byte, as it is. -/
  | sign (b : UInt8)
  /-- Blanks, in any number. -/
  | gap
  /-- Bytes of a class, at least one: the value. -/
  | value (allowed : UInt8 → Bool)
  /-- One of some letters, in either case: the index. -/
  | letter (choices : List UInt8)

/-- What a pattern finds; where it has no letter, the index is zero. -/
structure Found where
  value : Bytes
  index : UInt8
deriving DecidableEq, Repr

/-- Fits a text to the pieces of a pattern, from left to right.  Gaps and
values are as long as they can be. -/
def fit? : List Piece → Bytes → Option Found
  | [], s => if s.isEmpty then some ⟨[], 0⟩ else none
  | .sign b :: pieces, s => if s.head? == some b then fit? pieces s.tail else none
  | .gap :: pieces, s => fit? pieces (skipBlanks s)
  | .value allowed :: pieces, s =>
    if (s.takeWhile allowed).isEmpty then none
    else
      (fit? pieces (s.dropWhile allowed)).map fun found =>
        { found with value := s.takeWhile allowed }
  | .letter _ :: _, [] => none
  | .letter choices :: pieces, b :: s =>
    if choices.contains (Byte.toUpper b) then
      (fit? pieces s).map fun found => { found with index := Byte.toUpper b }
    else none

/-- A byte that is no blank. -/
def isSolid (b : UInt8) : Bool :=
  !Byte.isBlank b

/-- A comma or a parenthesis. -/
def isMark (b : UInt8) : Bool :=
  b == 0x2C || b == 0x28 || b == 0x29

/-- A byte that is neither a blank nor a comma or parenthesis. -/
def isTight (b : UInt8) : Bool :=
  isSolid b && !isMark b

/-- The pattern of a form; the bare form has none. -/
def pattern : Form → List Piece
  | .immediate => [.sign 0x23, .gap, .value isSolid]
  | .indexed => [.value isTight, .gap, .sign 0x2C, .gap, .letter [letterX, letterY]]
  | .indirect => [.sign 0x28, .gap, .value isTight, .gap, .sign 0x29]
  | .indexedIndirect =>
    [.sign 0x28, .gap, .value isTight, .gap, .sign 0x2C, .gap, .letter [letterX], .gap,
     .sign 0x29]
  | .indirectIndexed =>
    [.sign 0x28, .gap, .value isTight, .gap, .sign 0x29, .gap, .sign 0x2C, .gap,
     .letter [letterY]]
  | .bare | .other => []

/-- The forms that have a pattern, most specific first. -/
def patterned : List Form :=
  [.immediate, .indexedIndirect, .indirectIndexed, .indirect, .indexed]

/-! ### Reading -/

/-- The first form of a list whose pattern a text fits, with what is found
there; the bare form if there is none. -/
def shapeIn (order : List Form) (s : Bytes) : Form × Found :=
  (order.findSome? fun form => (fit? (pattern form) s).map fun found => (form, found)).getD
    (.bare, ⟨s, 0⟩)

/-- Reads an operand by the patterns of some forms, in their order; none if what
is found is no value. -/
def parseIn? (order : List Form) (s : Bytes) : Option Operand :=
  let shape := shapeIn order s
  if isValue shape.2.value then some ⟨shape.1, shape.2.value, shape.2.index, s⟩ else none

/-- Reads an operand; none if the text is in no form. -/
def parse? (s : Bytes) : Option Operand :=
  parseIn? patterned s

end Operand

end Mos6502
