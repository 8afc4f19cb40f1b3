/-
Mos6502/Proofs/Rereading.lean

The text of an expression stands for the expression.  The mode is not written
down: it is chosen again, from the punctuation, the number of digits and the
class of the mnemonic.  `SourceForm` says which values a mode can be written
with (`Value.Written`); here it is shown that the choice of a mode gives no
others.

* `modeOf_label_spec` — a label keeps the form it was written in, and it never
  ends in a mode that a label does not select;
* `select_gives_written`, `parse_gives_written` — so every expression of a text
  can be written, with the destination of a branch still in it;
* `resolveTarget_written` — and as it is placed, with the displacement instead.

`rereads_of_written` then reads the text back as a source of one line.
-/
import Mos6502.Proofs.Faults
import Mos6502.Proofs.Placement

namespace Mos6502

/-! ### The choice of a mode -/

/-- A text that is classified as a label is the label itself. -/
theorem OperandText.classify_eq_label {v name : Bytes} (hv : IsValueText v)
    (h : classify v = .ok (.label name)) : v = name ∧ isIdentifier name = true := by
  cases classify_eq_ok_iff.mp h with
  | label hhead =>
    cases hv with
    | literal => exact absurd rfl hhead
    | identifier hname => exact ⟨rfl, hname⟩

section Choice

variable {mnemonic : Mnemonic} {o : Operand} {mode : Mode} {value : Value}

/-- Of the two modes of an index letter, the near one takes a label where the
far one is missing. -/
theorem indexedModes_takesLabel {index : UInt8}
    (h : (if Opcode.supports mnemonic (indexedModes index).2 then (indexedModes index).2
      else (indexedModes index).1) = mode) :
    mode.form = .indexed ∧ mode.takesLabel mnemonic = true := by
  subst h
  unfold indexedModes
  split
  all_goals
    split
    · exact ⟨rfl, rfl⟩
    · next hfar => exact ⟨rfl, by simpa [Mode.takesLabel] using hfar⟩

/-- **A label selects a mode that it selects again**, in the form that it was
written in. -/
theorem modeOf_label_spec {text : OperandText} {name : Bytes}
    (h : modeOf mnemonic o text = .ok (mode, .label name)) :
    text = .label name ∧ mode.form = o.form ∧ mode.takesLabel mnemonic = true := by
  obtain ⟨form, v, index, raw⟩ := o
  cases text with
  | label name' =>
    cases form
    case bare =>
      cases h
      cases mnemonic.isBranch <;> exact ⟨rfl, rfl, rfl⟩
    case indexed =>
      cases h
      exact ⟨rfl, indexedModes_takesLabel rfl⟩
    case immediate | indirect | indexedIndirect | indirectIndexed =>
      cases h
      exact ⟨rfl, rfl, rfl⟩
    case other => cases h
  -- a literal gives a number or a destination, in every form
  | short n => cases form <;> cases h
  | long n =>
    cases form
    case bare =>
      simp only [modeOf] at h
      split at h <;> cases h
    all_goals cases h

/-- **A chosen mode can be written with the value chosen for it.** -/
theorem select_gives_written (hv : IsValueText o.value)
    (h : select mnemonic o = .ok (mode, value)) : value.Written mnemonic mode := by
  have hfits := selectOptional_fits (show selectOptional mnemonic (some o) = .ok (mode, value) from h)
  unfold select at h
  split at h
  · cases h
    exact .none rfl
  · next hacc =>
    obtain ⟨text, htext, hmode⟩ := bind_eq_ok_iff.mp h
    cases value with
    | none =>
      rcases hfits with hzero | ⟨n, hn, -⟩
      · exact .none hzero
      · cases hn
    | number n =>
      rcases hfits with hn | ⟨m, hm, -⟩
      · exact .number hn.1 hn.2
      · cases hm
    | target n =>
      rcases hfits with hn | ⟨m, -, hrel⟩
      · cases hn
      · exact .target hrel
    | label name =>
      obtain ⟨rfl, hform, htakes⟩ := modeOf_label_spec hmode
      obtain ⟨hname, hid⟩ := OperandText.classify_eq_label hv htext
      refine .label hid htakes ?_
      -- the accumulator was tried first, in this form
      intro hbare hshift
      rw [hform] at hbare
      simpa [hbare, hshift, hname] using hacc

theorem selectOptional_gives_written {operand : Option Operand}
    (hv : ∀ o, operand = some o → IsValueText o.value)
    (h : selectOptional mnemonic operand = .ok (mode, value)) : value.Written mnemonic mode := by
  cases operand with
  | none =>
    cases h
    cases mnemonic.isShift <;> exact .none rfl
  | some o => exact select_gives_written (hv o rfl) h

/-- **An expression of a text can be written**, also as long as the
destination of a branch is in it. -/
theorem parse_gives_written {source : Bytes} {nodes : List Node} (hparse : parse source = .ok nodes)
    {node : Node} (hnode : node ∈ nodes) {e : Expression} (h : Expression.ofNode node = .ok e) :
    e.operand.Written e.mnemonic e.mode := by
  obtain ⟨labels, name, operand, rfl, -, hselect, -⟩ := Expression.ofNode_eq_ok_iff.mp h
  apply selectOptional_gives_written _ hselect
  rintro o rfl
  exact (parse_operand hparse hnode).2

/-- A displacement can be written where a destination could. -/
theorem resolveTarget_written {address : Nat} {e e' : Expression}
    (hw : e.operand.Written e.mnemonic e.mode) (h : Builder.resolveTarget address e = .ok e') :
    e'.operand.Written e'.mnemonic e'.mode := by
  unfold Builder.resolveTarget at h
  split at h
  · next n hn =>
    rw [hn] at hw
    split at h
    · next d _ =>
      cases h
      cases hw with
      | target hrel =>
        show Value.Written e.mnemonic e.mode (.number d.toUInt16)
        rw [hrel]
        refine .number (by decide) ?_
        rw [UInt8.toNat_toUInt16]
        exact d.toNat_lt
    · cases h
  · cases h
    exact hw

end Choice

/-! ### The text read back -/

/-- An expression whose text is read as a source of one instruction, from which
mnemonic, mode and operand are chosen as they were. -/
def Expression.Rereads (e : Expression) : Prop :=
  ∃ node, parse e.text = .ok [node, .finish 1] ∧ node.kind = .instruction ∧
    Expression.ofNode node = .ok ⟨e.mnemonic, e.mode, e.operand, 1⟩

theorem Expression.rereads_of_written {e : Expression}
    (hsup : Opcode.supports e.mnemonic e.mode = true)
    (hw : e.operand.Written e.mnemonic e.mode) : e.Rereads := by
  obtain ⟨o, hline, hnode⟩ := parseLine_sourceForm hsup hw 1 0
  refine ⟨_, parse_line ?_ hline, rfl, hnode⟩
  intro hfeed
  rcases (sourceForm_inked hsup hw).2 _ hfeed with h | h <;> cases h

/-- **The text of an expression stands for it.**  Whatever a text is, the
expressions chosen for its instructions read back from their own texts, and so
do the expressions of the program, where displacements have taken the place of
destinations. -/
theorem source_rereads (source : Bytes) :
    (∀ nodes, parse source = .ok nodes → ∀ node ∈ nodes, ∀ e,
      Expression.ofNode node = .ok e → e.Rereads) ∧
    ∀ p, assemble source = .ok p → ∀ e ∈ p.expressions, e.Rereads := by
  constructor
  · intro nodes hparse node hnode e he
    exact Expression.rereads_of_written (Expression.ofNode_spec he).supported
      (parse_gives_written hparse hnode he)
  · intro p hassemble e he
    obtain ⟨nodes, hparse, hbuild⟩ := assemble_eq_ok hassemble
    obtain ⟨i, hi, rfl⟩ := List.mem_map.mp he
    obtain ⟨node, hnode, e, he, hresolve⟩ := exists_of_mem_forall₂ (build_becomesAt hbuild) hi
    have hmem : node ∈ nodes := (List.takeWhile_sublist _).mem (List.mem_of_mem_filter hnode)
    obtain ⟨⟨hsup, -⟩, -⟩ := Builder.resolveTarget_spec (Expression.ofNode_spec he) hresolve
    exact Expression.rereads_of_written hsup
      (resolveTarget_written (parse_gives_written hparse hmem he) hresolve)

/-- A short pointer, a label in zero page, a label that is no accumulator, an
accumulator, and the destination of a branch. -/
def mixedOperands : Bytes :=
  ascii "p: jmp ($20)\nstx p,Y\nasl A,x\nlsr a\nbne $0000"

theorem source_rereads_mixedOperands :
    (∃ p, assemble mixedOperands = .ok p ∧
      p.expressions.map Expression.text =
        [ascii "JMP ($0020)", ascii "STX p,Y", ascii "ASL A,X", ascii "LSR", ascii "BNE $F5"] ∧
      ∀ e ∈ p.expressions, e.Rereads) ∧
    ∃ nodes node e, parse mixedOperands = .ok nodes ∧ node ∈ nodes ∧
      Expression.ofNode node = .ok e ∧ e.text = ascii "BNE $0000" ∧ e.Rereads := by
  obtain ⟨hparsed, hplaced⟩ := source_rereads mixedOperands
  have hp : assemble mixedOperands = .ok
      ⟨#[⟨0, .jmp, .absoluteIndirect, .number 0x20, 1⟩, ⟨3, .stx, .zeroPageY, .label (ascii "p"), 2⟩,
        ⟨5, .asl, .absoluteX, .label (ascii "A"), 3⟩, ⟨8, .lsr, .accumulator, .none, 4⟩,
        ⟨9, .bne, .relative, .number 0xF5, 5⟩], #[⟨ascii "p", 0, some 0, 1⟩], 11⟩ := by
    decide +kernel
  have hbranch : ((parse mixedOperands).toOption.bind fun nodes => nodes[4]?) =
      some (.instruction 5 [] (ascii "bne") (some ⟨.bare, ascii "$0000", 0, ascii "$0000"⟩)) := by
    decide +kernel
  have he : Expression.ofNode
      (.instruction 5 [] (ascii "bne") (some ⟨.bare, ascii "$0000", 0, ascii "$0000"⟩)) =
        .ok ⟨.bne, .relative, .target 0, 5⟩ := by
    decide +kernel
  refine ⟨⟨_, hp, by decide +kernel, hplaced _ hp⟩, ?_⟩
  rcases hnodes : parse mixedOperands with e | nodes
  · rw [hnodes] at hbranch
    cases hbranch
  · rw [hnodes] at hbranch
    have hmem := List.mem_of_getElem? hbranch
    exact ⟨nodes, _, _, rfl, hmem, he, by decide +kernel, hparsed nodes hnodes _ hmem _ he⟩

end Mos6502
