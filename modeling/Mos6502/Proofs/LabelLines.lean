/-
Mos6502/Proofs/LabelLines.lean

Labels in front of an instruction, or on a line of their own.  An instruction
declares the labels that wait before its own, all of them at the cursor and
with its own index, and reports the same first fault whichever list a name is
in.  So it makes no difference to the pass whether labels are read with their
instruction or just before it: `Builder.step_apart` for one instruction in any
state, `Builder.run_apart` for any choice of instructions in a list of nodes.

Where the pass ends is not moved either, since an instruction and a line of
labels both go on (`LabelsApart.takeWhile`).
-/
import Mos6502.Program.Build

namespace Mos6502

/-- A list of nodes and the same list with the labels of some instructions on
lines of their own.  Such a line has the number of its instruction. -/
inductive LabelsApart : List Node → List Node → Prop
  | nil : LabelsApart [] []
  | keep {nodes nodes' : List Node} (node : Node) :
      LabelsApart nodes nodes' → LabelsApart (node :: nodes) (node :: nodes')
  | apart {nodes nodes' : List Node} (line : Int) (labels : List Bytes) (mnemonic : Bytes)
      (operand : Option Operand) : LabelsApart nodes nodes' →
      LabelsApart (.instruction line labels mnemonic operand :: nodes)
        (.label line labels :: .instruction line [] mnemonic operand :: nodes')

namespace LabelsApart

variable {nodes nodes' : List Node}

theorem refl (nodes : List Node) : LabelsApart nodes nodes := by
  induction nodes with
  | nil => exact .nil
  | cons node _ ih => exact .keep node ih

theorem append_left (before : List Node) (h : LabelsApart nodes nodes') :
    LabelsApart (before ++ nodes) (before ++ nodes') := by
  induction before with
  | nil => exact h
  | cons node _ ih => exact .keep node ih

/-- The end node stays where it is. -/
theorem takeWhile (h : LabelsApart nodes nodes') :
    LabelsApart (nodes.takeWhile fun node => !node.isFinish)
      (nodes'.takeWhile fun node => !node.isFinish) := by
  induction h with
  | nil => exact .nil
  | keep node _ ih =>
    rcases hend : node.isFinish
    · simp only [List.takeWhile_cons, hend]
      exact .keep node ih
    · simp only [List.takeWhile_cons, hend]
      exact .nil
  | apart line labels mnemonic operand _ ih => exact .apart line labels mnemonic operand ih

end LabelsApart

namespace Builder

/-- An instruction places its expression with the labels that wait and its own,
and it does not matter which of them are which. -/
theorem place_apart (b : Builder) (line : Int) (labels : List Bytes) (e : Expression) :
    b.place line labels e =
      { b with pending := b.pending ++ (pendingOf line labels).toArray }.place line [] e := by
  have hall : (b.pending ++ (pendingOf line labels).toArray).toList ++ pendingOf line [] =
      b.pending.toList ++ pendingOf line labels := by
    rw [Array.toList_append, pendingOf, pendingOf, List.map_nil, List.append_nil]
  unfold place
  dsimp only
  rw [hall]

/-- An instruction does in one step what its labels and the rest of it do in
two, with the same fault if there is one. -/
theorem step_apart (b : Builder) (line : Int) (labels : List Bytes) (mnemonic : Bytes)
    (operand : Option Operand) :
    b.step (.instruction line labels mnemonic operand) =
      b.step (.label line labels) >>= fun b' =>
        b'.step (.instruction line [] mnemonic operand) := by
  -- the expression is made without a look at the labels
  have hnode : Expression.ofNode (.instruction line labels mnemonic operand) =
      Expression.ofNode (.instruction line [] mnemonic operand) := rfl
  show _ = { b with pending := b.pending ++ (pendingOf line labels).toArray }.step
    (.instruction line [] mnemonic operand)
  unfold step
  dsimp only
  rw [hnode]
  rcases Expression.ofNode (.instruction line [] mnemonic operand) with cause | e
  · rfl
  · exact b.place_apart line labels e

/-- **A pass ends in the same state, or with the same fault**, wherever the
labels of its instructions stand. -/
theorem run_apart {nodes nodes' : List Node} (h : LabelsApart nodes nodes') (b : Builder) :
    b.run nodes = b.run nodes' := by
  unfold run
  induction h generalizing b with
  | nil => rfl
  | keep node _ ih =>
    rw [List.foldlM_cons, List.foldlM_cons]
    exact bind_congr ih
  | apart line labels mnemonic operand _ ih =>
    rw [List.foldlM_cons, List.foldlM_cons, step_apart, bind_assoc]
    refine bind_congr fun b' => ?_
    rw [List.foldlM_cons]
    exact bind_congr ih

end Builder

/-- The nodes of a program and the same nodes with labels on lines of their own
build the same program or have the same fault. -/
theorem build_of_labelsApart {nodes nodes' : List Node} (h : LabelsApart nodes nodes') :
    build nodes = build nodes' := by
  rw [build, build, Builder.run_apart h.takeWhile]

/-- **Labels in front of an instruction and labels on the line before it are the
same.**  The two lists of nodes build equal programs, with the same expressions,
addresses, table of symbols and size, or they have the same fault. -/
theorem build_labels_apart (xs ys : List Node) (line : Int) (labels : List Bytes)
    (mnemonic : Bytes) (operand : Option Operand) :
    build (xs ++ [.instruction line labels mnemonic operand] ++ ys) =
      build (xs ++ [.label line labels, .instruction line [] mnemonic operand] ++ ys) := by
  rw [List.append_assoc, List.append_assoc]
  apply build_of_labelsApart
  apply LabelsApart.append_left
  exact .apart line labels mnemonic operand (.refl ys)

end Mos6502
