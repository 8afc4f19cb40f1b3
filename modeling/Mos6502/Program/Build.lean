/-
Mos6502/Program/Build.lean

Laying a program out in one pass.  The size of an instruction depends on its
text alone, so the address of every label is final when it is recorded.

The pass folds over the nodes before the first end node.  Labels on a line of
their own wait until the next instruction, or until the end; those of an
instruction are declared after them.  Of several faults the first in this
order is reported: the expression itself, a branch destination out of reach,
the waiting labels, the instruction's own labels, the size of the section.
-/
import Mos6502.Displacement
import Mos6502.Program.Basic
import Mos6502.Selection
import Mos6502.Source.Line

namespace Mos6502

/-! ### Failures -/

/-- Why a list of nodes is no program. -/
inductive BuildError where
  /-- A node gives no expression. -/
  | expression (cause : ExpressionError)
  /-- A label or a branch destination is at fault. -/
  | symbol (cause : SymbolError)
  /-- The section grows past the address space at a line. -/
  | sectionTooLarge (line : Int)
deriving DecidableEq, Repr

namespace BuildError

/-- The class of a build error. -/
def fault : BuildError → Fault
  | .expression cause => cause.fault
  | .symbol cause => cause.fault
  | .sectionTooLarge _ => .valueOutOfRange

/-- The text of a build error. -/
def message : BuildError → Bytes
  | .expression cause => cause.message
  | .symbol cause => cause.message
  | .sectionTooLarge line =>
    atLine line (Fault.valueOutOfRange.text ++ ascii ": section exceeds 64K")

/-- The symbol a build error is tied to. -/
def symbol? : BuildError → Option SymbolError
  | .symbol cause => some cause
  | .expression _ | .sectionTooLarge _ => none

end BuildError

instance : Diagnostic BuildError where
  fault := BuildError.fault
  message := BuildError.message
  symbol? := BuildError.symbol?

/-- The detail of a branch that does not reach. -/
def distanceDetail (distance : Int) : Bytes :=
  ascii "displacement " ++ Numeral.int distance

/-- A label declared a second time. -/
def duplicateLabel (name : Bytes) (line first : Int) : SymbolError :=
  ⟨name, line, .duplicateLabel, ascii "first declared on line " ++ Numeral.int first⟩

/-- A label past the last address. -/
def labelOutOfRange (name : Bytes) (line : Int) : SymbolError :=
  ⟨name, line, .valueOutOfRange, []⟩

/-- A branch to a literal destination that does not reach. -/
def targetOutOfRange (target : UInt16) (line distance : Int) : SymbolError :=
  ⟨Numeral.wordLiteral target, line, .branchOutOfRange, distanceDetail distance⟩

/-! ### The pass -/

/-- A label that waits for an address. -/
structure PendingLabel where
  name : Bytes
  line : Int
deriving DecidableEq, Repr

/-- The state of the pass. -/
structure Builder where
  code : Array Placed
  symbols : Array Symbol
  /-- Labels declared since the last instruction. -/
  pending : Array PendingLabel
  /-- The address of the next instruction. -/
  cursor : Nat
deriving DecidableEq, Repr

namespace Builder

/-- The state before the first node. -/
def start : Builder :=
  ⟨#[], #[], #[], 0⟩

/-- Declares a label at an address. -/
def define (address : Nat) (index : Option Nat) (symbols : Array Symbol) (label : PendingLabel) :
    Except BuildError (Array Symbol) :=
  match symbols.find? fun s => s.name == label.name with
  | some first => .error (.symbol (duplicateLabel label.name label.line first.line))
  | none =>
    if addressSpace ≤ address then .error (.symbol (labelOutOfRange label.name label.line))
    else .ok (symbols.push ⟨label.name, address, index, label.line⟩)

/-- Declares several labels at one address, in order. -/
def defineAll (address : Nat) (index : Option Nat) (symbols : Array Symbol)
    (labels : List PendingLabel) : Except BuildError (Array Symbol) :=
  labels.foldlM (define address index) symbols

/-- Turns a branch destination into the displacement from an address; every
other expression is unchanged. -/
def resolveTarget (address : Nat) (e : Expression) : Except BuildError Expression :=
  match e.operand with
  | .target n =>
    match displacement n.toNat address with
    | .ok d => .ok { e with operand := .number d.toUInt16 }
    | .error distance => .error (.symbol (targetOutOfRange n e.line distance))
  | _ => .ok e

/-- Names with a line, as labels that wait. -/
def pendingOf (line : Int) (names : List Bytes) : List PendingLabel :=
  names.map fun name => ⟨name, line⟩

/-- Places an expression at the cursor, with the labels in front of it. -/
def place (b : Builder) (line : Int) (labels : List Bytes) (e : Expression) :
    Except BuildError Builder := do
  let e ← resolveTarget b.cursor e
  let all := b.pending.toList ++ pendingOf line labels
  let symbols ← defineAll b.cursor (some b.code.size) b.symbols all
  let next := b.cursor + e.size
  if addressSpace < next then .error (.sectionTooLarge line)
  else .ok ⟨b.code.push ⟨b.cursor, e⟩, symbols, #[], next⟩

/-- One step of the pass.  Only instructions and lines of labels do
anything. -/
def step (b : Builder) (node : Node) : Except BuildError Builder :=
  match node with
  | .instruction line labels _ _ =>
    match Expression.ofNode node with
    | .error cause => .error (.expression cause)
    | .ok e => b.place line labels e
  | .label line labels =>
    .ok { b with pending := b.pending ++ (pendingOf line labels).toArray }
  | .finish _ | .other _ => .ok b

/-- The state after a list of nodes. -/
def run (b : Builder) (nodes : List Node) : Except BuildError Builder :=
  nodes.foldlM step b

/-- Ends the pass: labels that still wait are placed after the last
instruction. -/
def finish (b : Builder) : Except BuildError Program := do
  let symbols ← defineAll b.cursor none b.symbols b.pending.toList
  return ⟨b.code, symbols, b.cursor⟩

end Builder

/-- Lays out the nodes before the first end node. -/
def build (nodes : List Node) : Except BuildError Program := do
  let b ← Builder.start.run (nodes.takeWhile fun node => !node.isFinish)
  b.finish

/-! ### From text -/

/-- Why a text is no program. -/
inductive AssembleError where
  | parse (cause : ParseError)
  | build (cause : BuildError)
deriving DecidableEq, Repr

namespace AssembleError

/-- The class of an assembly error. -/
def fault : AssembleError → Fault
  | .parse _ => .malformed
  | .build cause => cause.fault

/-- The text of an assembly error. -/
def message : AssembleError → Bytes
  | .parse cause => ascii "parsing error: " ++ cause.message
  | .build cause => cause.message

/-- The symbol an assembly error is tied to. -/
def symbol? : AssembleError → Option SymbolError
  | .parse _ => none
  | .build cause => cause.symbol?

end AssembleError

instance : Diagnostic AssembleError where
  fault := AssembleError.fault
  message := AssembleError.message
  symbol? := AssembleError.symbol?

/-- Reads a text and lays it out. -/
def assemble (source : Bytes) : Except AssembleError Program :=
  match parse source with
  | .error cause => .error (.parse cause)
  | .ok nodes =>
    match build nodes with
    | .error cause => .error (.build cause)
    | .ok program => .ok program

end Mos6502
