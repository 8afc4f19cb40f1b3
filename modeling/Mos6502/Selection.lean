/-
Mos6502/Selection.lean

From node to expression.  The addressing mode is chosen from the mnemonic and
the surface of the operand alone: its form, its index letter, and whether its
text is a label, a literal of one or two digits, or one of three or four.  So
the size of every instruction is known before any symbol is.

* A literal of up to two digits selects the zero-page form of its mode, a
  longer one the absolute form, whatever its value is.
* A label selects the absolute form, except where a mnemonic has only the
  zero-page one (`STX label,Y` and `STY label,X`).
* A branch takes a short literal as its displacement and a long one as its
  destination.
-/
import Mos6502.Expression
import Mos6502.Fault
import Mos6502.Source.Node
import Mos6502.Text.Quoted

namespace Mos6502

/-! ### Failures -/

/-- Why an operand selects no mode. -/
inductive OperandError where
  /-- A literal without digits, or with something else among them. -/
  | malformedLiteral (text : Bytes)
  /-- A literal with more than four digits. -/
  | literalTooWide (text : Bytes)
  /-- An immediate literal of more than two digits. -/
  | immediateTooWide (text : Bytes)
  /-- A zero-page pointer of more than two digits. -/
  | pointerTooWide (text : Bytes)
  /-- A form that no operand of the language has. -/
  | unhandledForm (form : Form)
deriving DecidableEq, Repr

namespace OperandError

/-- The class of an operand error. -/
def fault : OperandError → Fault
  | .malformedLiteral _ => .malformed
  | .literalTooWide _ | .immediateTooWide _ | .pointerTooWide _ => .operandTooWide
  | .unhandledForm form => .other (ascii ("unhandled operand form " ++ form.name))

/-- The text of an operand error. -/
def message (e : OperandError) : Bytes :=
  match e with
  | .malformedLiteral text =>
    e.fault.text ++ ascii ": malformed literal " ++ Text.quote text
  | .literalTooWide text => e.fault.text ++ ascii ": " ++ text
  | .immediateTooWide text => e.fault.text ++ ascii ": immediate " ++ text
  | .pointerTooWide text => e.fault.text ++ ascii ": zero-page pointer " ++ text
  | .unhandledForm _ => e.fault.text

end OperandError

/-- Why a node gives no expression. -/
inductive ExpressionError where
  /-- The node is no instruction. -/
  | notInstruction (line : Int) (kind : NodeKind)
  | unknownMnemonic (line : Int) (text : Bytes)
  | operand (line : Int) (cause : OperandError)
  /-- The mnemonic has no opcode for the chosen mode. -/
  | unsupported (line : Int) (mnemonic : Mnemonic) (mode : Mode)
deriving DecidableEq, Repr

namespace ExpressionError

/-- The words of a failure that is in no other class. -/
def notInstructionText (kind : NodeKind) : Bytes :=
  ascii ("expected an instruction, got a " ++ kind.name ++ " node")

/-- The class of an expression error. -/
def fault : ExpressionError → Fault
  | .notInstruction _ kind => .other (notInstructionText kind)
  | .unknownMnemonic .. => .unknownMnemonic
  | .operand _ cause => cause.fault
  | .unsupported .. => .unsupportedMode

/-- The text of an expression error. -/
def message : ExpressionError → Bytes
  | .notInstruction line kind => atLine line (notInstructionText kind)
  | .unknownMnemonic line text =>
    atLine line (Fault.unknownMnemonic.text ++ ascii ": " ++ text)
  | .operand line cause => atLine line cause.message
  | .unsupported line mnemonic mode =>
    atLine line (EncodingError.message ⟨some mnemonic, some mode⟩)

end ExpressionError

instance : Diagnostic ExpressionError where
  fault := ExpressionError.fault
  message := ExpressionError.message
  symbol? _ := none

/-! ### Operand text -/

/-- What the text of an operand is, seen alone. -/
inductive OperandText where
  /-- A symbol. -/
  | label (name : Bytes)
  /-- A literal of one or two digits. -/
  | short (n : UInt16)
  /-- A literal of three or four digits. -/
  | long (n : UInt16)
deriving DecidableEq, Repr

namespace OperandText

/-- Classifies an operand's text: a literal has a dollar sign in front, all
else is a label. -/
def classify : Bytes → Except OperandError OperandText
  | 0x24 :: digits =>
    match Numeral.readHex? digits with
    | none => .error (.malformedLiteral (0x24 :: digits))
    | some n =>
      if digits.length ≤ 2 then .ok (.short n.toUInt16)
      else if digits.length ≤ 4 then .ok (.long n.toUInt16)
      else .error (.literalTooWide (0x24 :: digits))
  | name => .ok (.label name)

/-- The operand value of a text outside a branch. -/
def value : OperandText → Value
  | .label name => .label name
  | .short n | .long n => .number n

end OperandText

/-! ### Modes -/

/-- The zero-page and the absolute mode of an index letter; every letter but
`Y` counts as `X`. -/
def indexedModes (index : UInt8) : Mode × Mode :=
  if index == 0x59 then (.zeroPageY, .absoluteY) else (.zeroPageX, .absoluteX)

/-- The mode and value of a classified operand in its form. -/
def modeOf (mnemonic : Mnemonic) (operand : Operand) (text : OperandText) :
    Except OperandError (Mode × Value) :=
  match operand.form, text with
  | .bare, .label name =>
    .ok (if mnemonic.isBranch then .relative else .absolute, .label name)
  | .bare, .short n =>
    .ok (if mnemonic.isBranch then .relative else .zeroPage, .number n)
  | .bare, .long n =>
    .ok (if mnemonic.isBranch then (.relative, .target n) else (.absolute, .number n))
  | .immediate, .long _ => .error (.immediateTooWide operand.value)
  | .immediate, text => .ok (.immediate, text.value)
  | .indexed, .short n => .ok ((indexedModes operand.index).1, .number n)
  | .indexed, .long n => .ok ((indexedModes operand.index).2, .number n)
  | .indexed, .label name =>
    let (near, far) := indexedModes operand.index
    .ok (if Opcode.supports mnemonic far then far else near, .label name)
  | .indirect, text => .ok (.absoluteIndirect, text.value)
  | .indexedIndirect, .long _ | .indirectIndexed, .long _ =>
    .error (.pointerTooWide operand.value)
  | .indexedIndirect, text => .ok (.indexedIndirect, text.value)
  | .indirectIndexed, text => .ok (.indirectIndexed, text.value)
  | .other, _ => .error (.unhandledForm .other)

/-- Whether a text is the letter A of either case, which names the
accumulator. -/
def isAccumulator (text : Bytes) : Bool :=
  text == [0x41] || text == [0x61]

/-- Chooses mode and value for an operand. -/
def select (mnemonic : Mnemonic) (operand : Operand) : Except OperandError (Mode × Value) :=
  if operand.form == .bare && mnemonic.isShift && isAccumulator operand.value then
    .ok (.accumulator, .none)
  else do
    modeOf mnemonic operand (← OperandText.classify operand.value)

/-- Mode and value of an instruction with or without an operand. -/
def selectOptional (mnemonic : Mnemonic) : Option Operand → Except OperandError (Mode × Value)
  | none => .ok (if mnemonic.isShift then .accumulator else .implied, .none)
  | some operand => select mnemonic operand

/-- The expression of an instruction node. -/
def Expression.ofNode : Node → Except ExpressionError Expression
  | .instruction line _ name operand =>
    match Mnemonic.ofName? name with
    | none => .error (.unknownMnemonic line name)
    | some mnemonic =>
      match selectOptional mnemonic operand with
      | .error cause => .error (.operand line cause)
      | .ok (mode, value) =>
        if Opcode.supports mnemonic mode then .ok ⟨mnemonic, mode, value, line⟩
        else .error (.unsupported line mnemonic mode)
  | node => .error (.notInstruction node.line node.kind)

end Mos6502
