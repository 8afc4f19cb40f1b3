/-
Mos6502/Source/Node.lean

What a line of assembly text says, before mnemonics and addressing modes come
into it.  A node is an instruction with the labels in front of it, a line of
labels only, or the end of the text.  An operand keeps its surface form, the
literal or label text without punctuation, and the text as written.

Nodes need not come from a text: the layout of a program takes any list of
them, with any mnemonic and operand text.  `Node.other` and `Form.other` stand
for kinds that nothing acts on.
-/
import Mos6502.Bytes

namespace Mos6502

/-- The surface form of an operand. -/
inductive Form where
  /-- `value` -/
  | bare
  /-- `#value` -/
  | immediate
  /-- `value,X` or `value,Y` -/
  | indexed
  /-- `(value)` -/
  | indirect
  /-- `(value,X)` -/
  | indexedIndirect
  /-- `(value),Y` -/
  | indirectIndexed
  /-- A form that no operand of the language has. -/
  | other
deriving DecidableEq, Repr

/-- The name of a form. -/
def Form.name : Form → String
  | .bare => "bare"
  | .immediate => "immediate"
  | .indexed => "indexed"
  | .indirect => "indirect"
  | .indexedIndirect => "indexed-indirect"
  | .indirectIndexed => "indirect-indexed"
  | .other => "unknown"

/-- The form with a given number, counted from zero. -/
def Form.ofNumber : Int → Form
  | 0 => .bare
  | 1 => .immediate
  | 2 => .indexed
  | 3 => .indirect
  | 4 => .indexedIndirect
  | 5 => .indirectIndexed
  | _ => .other

/-- The operand of an instruction, not yet classified. -/
structure Operand where
  form : Form
  /-- The literal or label text, without the punctuation of the form. -/
  value : Bytes
  /-- `X` or `Y` for the indexed forms, else zero. -/
  index : UInt8
  /-- The operand as written. -/
  raw : Bytes
deriving DecidableEq, Repr

/-- The kinds of node. -/
inductive NodeKind where
  | instruction
  | label
  | finish
  | other
deriving DecidableEq, Repr

/-- The name of a kind of node. -/
def NodeKind.name : NodeKind → String
  | .instruction => "instruction"
  | .label => "label"
  | .finish => "end"
  | .other => "unknown"

/-- The kind of node with a given number, counted from zero. -/
def NodeKind.ofNumber : Int → NodeKind
  | 0 => .instruction
  | 1 => .label
  | 2 => .finish
  | _ => .other

/-- One element of a source text. -/
inductive Node where
  /-- A mnemonic with the labels in front of it and perhaps an operand. -/
  | instruction (line : Int) (labels : List Bytes) (mnemonic : Bytes) (operand : Option Operand)
  /-- A line that only declares labels. -/
  | label (line : Int) (labels : List Bytes)
  /-- The end of the text. -/
  | finish (line : Int)
  /-- A node of no known kind. -/
  | other (line : Int)
deriving DecidableEq, Repr

namespace Node

/-- The line a node stands on. -/
def line : Node → Int
  | .instruction line .. | .label line _ | .finish line | .other line => line

/-- The kind of a node. -/
def kind : Node → NodeKind
  | .instruction .. => .instruction
  | .label .. => .label
  | .finish _ => .finish
  | .other _ => .other

/-- The labels that a node declares. -/
def labels : Node → List Bytes
  | .instruction _ labels _ _ | .label _ labels => labels
  | .finish _ | .other _ => []

/-- Whether a node ends the text. -/
def isFinish : Node → Bool
  | .finish _ => true
  | _ => false

end Node

end Mos6502
