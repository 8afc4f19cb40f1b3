/-
Mos6502/Proofs/OperandWidth.lean

No bit of an operand is lost between its text and its bytes.  An emitter takes
the low byte of a number without a look at the rest, so the number has to fit
when the mode is chosen; and it does, since a mode of one operand byte is
chosen for a literal of at most two digits only.

What a node says about its operand reaches the expression in one of four ways,
by the class of the text (`modeOf_value`): nothing, a number, the destination
of a branch, or a label.  The mode follows from the class of the text, the form
and the index, and never from the value (`modeOf_alike`), so two literals of
one class are interchangeable.

`ofNode_keeps_operand` says so for every node, whether it was read from a text
or not.
-/
import Mos6502.Proofs.Decoding
import Mos6502.Proofs.SourceForm

namespace Mos6502

/-! ### Operands of nodes -/

/-- The operand of a node. -/
def Node.operand? : Node → Option Operand
  | .instruction _ _ _ operand => operand
  | _ => none

/-- A node with another operand. -/
def Node.withOperand (o : Operand) : Node → Node
  | .instruction line labels name _ => .instruction line labels name (some o)
  | node => node

/-- An operand whose text is a literal: a dollar sign and one to four
hexadecimal digits, which denote its value. -/
structure Operand.Literal (o : Operand) (digits : Bytes) (n : Nat) : Prop where
  text : o.value = 0x24 :: digits
  length_le : digits.length ≤ 4
  denotes : Numeral.Denotes 16 digits n

/-- Literals of one class. -/
inductive OperandText.Alike : OperandText → OperandText → Prop
  | short (n n' : UInt16) : Alike (.short n) (.short n')
  | long (n n' : UInt16) : Alike (.long n) (.long n')

variable {mnemonic : Mnemonic} {o o' : Operand} {text text' : OperandText} {mode : Mode}
  {value : Value}

/-! ### What a mode is chosen from -/

/-- Only the destination of a branch is more than the value of its text. -/
theorem modeOf_value (h : modeOf mnemonic o text = .ok (mode, value)) :
    value = text.value ∨
      ∃ n, text = .long n ∧ value = .target n ∧ mnemonic.isBranch = true ∧ mode = .relative := by
  obtain ⟨form, v, index, raw⟩ := o
  cases text with
  | label name => cases form <;> cases h <;> exact .inl rfl
  | short n => cases form <;> cases h <;> exact .inl rfl
  | long n =>
    cases form
    case bare =>
      simp only [modeOf] at h
      split at h
      · next hbranch =>
        cases h
        exact .inr ⟨n, rfl, rfl, hbranch, rfl⟩
      · cases h
        exact .inl rfl
    case indexed | indirect =>
      cases h
      exact .inl rfl
    case immediate | indexedIndirect | indirectIndexed | other => cases h

/-- **The mode does not depend on the value of a literal**, only on its
class. -/
theorem modeOf_alike (htext : text.Alike text') (hform : o'.form = o.form)
    (hindex : o'.index = o.index) (h : modeOf mnemonic o text = .ok (mode, value)) :
    ∃ value', modeOf mnemonic o' text' = .ok (mode, value') := by
  obtain ⟨form, v, index, raw⟩ := o
  obtain ⟨form', v', index', raw'⟩ := o'
  cases hform
  cases hindex
  cases htext with
  | short n n' => cases form <;> cases h <;> exact ⟨_, rfl⟩
  | long n n' =>
    cases form
    case bare =>
      simp only [modeOf] at h ⊢
      split at h
      · next hbranch =>
        cases h
        exact ⟨_, by rw [if_pos hbranch]⟩
      · next hbranch =>
        cases h
        exact ⟨_, by rw [if_neg hbranch]⟩
    case indexed | indirect =>
      cases h
      exact ⟨_, rfl⟩
    case immediate | indexedIndirect | indirectIndexed | other => cases h

/-- An operand is the accumulator or none at all, or its text is classified
and selects the mode. -/
theorem selectOptional_cases {operand : Option Operand}
    (h : selectOptional mnemonic operand = .ok (mode, value)) :
    (value = .none ∧ ∀ o, operand = some o → isAccumulator o.value = true) ∨
      ∃ o text, operand = some o ∧ OperandText.Classified o.value text ∧
        modeOf mnemonic o text = .ok (mode, value) := by
  cases operand with
  | none =>
    cases h
    exact .inl ⟨rfl, by simp⟩
  | some o =>
    simp only [selectOptional, select] at h
    split at h
    · next hacc =>
      cases h
      refine .inl ⟨rfl, ?_⟩
      rintro o' ⟨⟩
      simp only [Bool.and_eq_true] at hacc
      exact hacc.2
    · obtain ⟨text, htext, hmode⟩ := bind_eq_ok_iff.mp h
      exact .inr ⟨o, text, rfl, OperandText.classify_eq_ok_iff.mp htext, hmode⟩

/-! ### Values and their texts -/

/-- A number is what the digits of the operand denote. -/
theorem selectOptional_number {operand : Option Operand} {n : UInt16}
    (h : selectOptional mnemonic operand = .ok (mode, .number n)) :
    ∃ o digits, operand = some o ∧ o.Literal digits n.toNat := by
  obtain ⟨hnone, -⟩ | ⟨o, text, rfl, htext, hmode⟩ := selectOptional_cases h
  · cases hnone
  · obtain hvalue | ⟨_, -, htarget, -⟩ := modeOf_value hmode
    · generalize hv : o.value = v at htext
      cases htext with
      | label => cases hvalue
      | @short digits _ hlen hn =>
        cases hvalue
        exact ⟨o, digits, rfl, hv, by omega, hn⟩
      | @long digits _ hlen hn =>
        cases hvalue
        exact ⟨o, digits, rfl, hv, by omega, hn⟩
    · cases htarget

/-- A destination is what the three or four digits of a branch's operand
denote. -/
theorem selectOptional_target {operand : Option Operand} {n : UInt16}
    (h : selectOptional mnemonic operand = .ok (mode, .target n)) :
    mnemonic.isBranch = true ∧ mode = .relative ∧
      ∃ o digits, operand = some o ∧ o.Literal digits n.toNat ∧ 3 ≤ digits.length := by
  obtain ⟨hnone, -⟩ | ⟨o, text, rfl, htext, hmode⟩ := selectOptional_cases h
  · cases hnone
  · obtain hvalue | ⟨_, rfl, htarget, hbranch, hrelative⟩ := modeOf_value hmode
    · cases text <;> cases hvalue
    · cases htarget
      refine ⟨hbranch, hrelative, ?_⟩
      generalize hv : o.value = v at htext
      cases htext with
      | @long digits _ hlen hn => exact ⟨o, digits, rfl, ⟨hv, by omega, hn⟩, by omega⟩

/-- A label is the text of the operand, and no literal. -/
theorem selectOptional_label {operand : Option Operand} {name : Bytes}
    (h : selectOptional mnemonic operand = .ok (mode, .label name)) :
    name.head? ≠ some 0x24 ∧ ∃ o, operand = some o ∧ o.value = name := by
  obtain ⟨hnone, -⟩ | ⟨o, text, rfl, htext, hmode⟩ := selectOptional_cases h
  · cases hnone
  · obtain hvalue | ⟨_, -, htarget, -⟩ := modeOf_value hmode
    · generalize hv : o.value = v at htext
      cases htext with
      | label hhead =>
        cases hvalue
        exact ⟨hhead, o, rfl, hv⟩
      | short => cases hvalue
      | long => cases hvalue
    · cases htarget

/-- A literal is classified by whether it has more than two digits. -/
theorem Operand.Literal.classified {digits : Bytes} {n : Nat} (h : o.Literal digits n) :
    OperandText.Classified o.value
      (if digits.length ≤ 2 then .short n.toUInt16 else .long n.toUInt16) := by
  have hn := (OperandText.toNat_toUInt16_of_denotes h.length_le h.denotes).symm ▸ h.denotes
  have hlen := h.length_le
  rw [h.text]
  split
  · next hshort => exact .short hshort hn
  · exact .long (by omega) hn

/-- **Literals of one class are interchangeable.** -/
theorem selectOptional_alike {digits digits' : Bytes} {n n' : Nat} (ho : o.Literal digits n)
    (ho' : o'.Literal digits' n') (hform : o'.form = o.form) (hindex : o'.index = o.index)
    (hwidth : digits'.length ≤ 2 ↔ digits.length ≤ 2)
    (h : selectOptional mnemonic (some o) = .ok (mode, value)) :
    ∃ value', selectOptional mnemonic (some o') = .ok (mode, value') := by
  -- no literal is the accumulator, so the digits alone decide
  have hselect : ∀ {x : Operand} {ds : Bytes} {k : Nat}, x.Literal ds k →
      selectOptional mnemonic (some x) =
        modeOf mnemonic x (if ds.length ≤ 2 then .short k.toUInt16 else .long k.toUInt16) := by
    intro x ds k hx
    apply select_of_classify
    · intro _ _
      rw [hx.text]
      exact isAccumulator_literal ds
    · exact OperandText.classify_eq_ok_iff.mpr hx.classified
  rw [hselect ho] at h
  rw [hselect ho']
  refine modeOf_alike ?_ hform hindex h
  by_cases hshort : digits.length ≤ 2
  · rw [if_pos hshort, if_pos (hwidth.mpr hshort)]
    exact .short ..
  · rw [if_neg hshort, if_neg (mt hwidth.mp hshort)]
    exact .long ..

/-! ### Nodes -/

theorem Expression.Selected.operand_eq_none_iff {e : Expression} (h : e.Selected) :
    e.operand = .none ↔ e.mode.operandLength = 0 := by
  obtain ⟨-, hfits | ⟨n, htarget, hmode⟩⟩ := h
  · cases hoperand : e.operand <;> rw [hoperand] at hfits
    case none => exact iff_of_true rfl hfits
    case number => exact iff_of_false (by simp) hfits.1
    case label => exact iff_of_false (by simp) hfits
    case target => cases hfits
  · rw [htarget, hmode]
    exact iff_of_false (by simp) (by decide)

/-- The operand bytes of a number that was chosen for a mode are read back as
the number. -/
theorem Expression.Selected.readOperand? {e : Expression} (h : e.Selected) {n : UInt16}
    (hn : e.operand = .number n) :
    Mos6502.readOperand? e.mode.operandLength (operandBytes e.mode e.operand) = some n := by
  rw [hn, readOperand?_eq_some_iff]
  obtain ⟨-, hfits | ⟨_, htarget, -⟩⟩ := h
  · rw [hn] at hfits
    exact ⟨hfits.2, List.prefix_refl _⟩
  · rw [hn] at htarget
    cases htarget

/-- **The choice of a mode loses no bit of an operand.**  Whatever node is
accepted, its mnemonic has an opcode for the mode, and there is an operand
exactly if the mode has operand bytes.  A number is what the digits of the
operand denote, and the operand bytes hold all of it; a destination is that of
a branch with three or four digits; a label is the text itself.  Any other
literal of the same class is accepted in the same mode. -/
theorem Expression.ofNode_keeps_operand {node : Node} {e : Expression}
    (h : Expression.ofNode node = .ok e) :
    (∃ opcode, Opcode.encode? e.mnemonic e.mode = some opcode) ∧
    (e.operand = .none ↔ e.mode.operandLength = 0) ∧
    (∀ n, e.operand = .number n →
      (∃ o digits, node.operand? = some o ∧ o.Literal digits n.toNat) ∧
      (e.mode.operandLength = 1 → n.toNat ≤ 0xFF) ∧
      readOperand? e.mode.operandLength (operandBytes e.mode e.operand) = some n) ∧
    (∀ n, e.operand = .target n → e.mnemonic.isBranch = true ∧ e.mode = .relative ∧
      ∃ o digits, node.operand? = some o ∧ o.Literal digits n.toNat ∧ 3 ≤ digits.length) ∧
    (∀ name, e.operand = .label name →
      name.head? ≠ some 0x24 ∧ ∃ o, node.operand? = some o ∧ o.value = name) ∧
    (∀ o digits n o' digits' n', node.operand? = some o → o.Literal digits n →
      o'.Literal digits' n' → o'.form = o.form → o'.index = o.index →
      (digits'.length ≤ 2 ↔ digits.length ≤ 2) →
      ∃ e', Expression.ofNode (node.withOperand o') = .ok e' ∧ e'.mnemonic = e.mnemonic ∧
        e'.mode = e.mode ∧ e'.line = e.line) := by
  have hselected := Expression.ofNode_spec h
  obtain ⟨labels, name, operand, rfl, hname, hselect, hsupports⟩ := Expression.ofNode_eq_ok_iff.mp h
  refine ⟨Option.isSome_iff_exists.mp hsupports, hselected.operand_eq_none_iff, ?_, ?_, ?_, ?_⟩
  · intro n hn
    refine ⟨selectOptional_number (hn ▸ hselect), ?_, hselected.readOperand? hn⟩
    intro hbyte
    obtain ⟨hlt, -⟩ := readOperand?_eq_some_iff.mp (hselected.readOperand? hn)
    rw [hbyte] at hlt
    omega
  · intro n hn
    exact selectOptional_target (hn ▸ hselect)
  · intro label hlabel
    exact selectOptional_label (hlabel ▸ hselect)
  · intro o digits n o' digits' n' ho hliteral hliteral' hform hindex hwidth
    cases show operand = some o from ho
    obtain ⟨value', hselect'⟩ := selectOptional_alike hliteral hliteral' hform hindex hwidth hselect
    exact ⟨⟨e.mnemonic, e.mode, value', e.line⟩,
      Expression.ofNode_eq_ok_iff.mpr ⟨labels, name, some o', rfl, hname, hselect', hsupports⟩,
      rfl, rfl, rfl⟩

/-- A literal of four digits whose value would fit a byte, for an index letter
that is none. -/
def paddedLiteral : Operand :=
  ⟨.indexed, ascii "$00ff", 0, []⟩

theorem Expression.ofNode_keeps_operand_padded :
    Expression.ofNode (.instruction 7 [] (ascii " Lda") (some paddedLiteral)) =
        .ok ⟨.lda, .absoluteX, .number 0xFF, 7⟩ ∧
      (∃ digits, paddedLiteral.Literal digits 0xFF) ∧
      readOperand? 2 (operandBytes .absoluteX (.number 0xFF)) = some 0xFF ∧
      ∃ e, Expression.ofNode
          (.instruction 7 [] (ascii " Lda") (some ⟨.indexed, ascii "$ABC", 0, []⟩)) = .ok e ∧
        e.mode = .absoluteX := by
  have h : Expression.ofNode (.instruction 7 [] (ascii " Lda") (some paddedLiteral)) =
      .ok ⟨.lda, .absoluteX, .number 0xFF, 7⟩ := by
    decide +kernel
  obtain ⟨-, -, hnumber, -, -, halike⟩ := Expression.ofNode_keeps_operand h
  obtain ⟨⟨o, digits, ho, hliteral⟩, -, hread⟩ := hnumber 0xFF rfl
  cases ho
  have hother : (⟨.indexed, ascii "$ABC", 0, []⟩ : Operand).Literal (ascii "ABC") 0xABC :=
    ⟨rfl, by decide, Numeral.readHex?_eq_some_iff.mp (by decide +kernel)⟩
  have hpadded : paddedLiteral.Literal (ascii "00ff") 0xFF :=
    ⟨rfl, by decide, Numeral.readHex?_eq_some_iff.mp (by decide +kernel)⟩
  obtain ⟨e, he, -, hmode, -⟩ :=
    halike paddedLiteral _ _ _ _ _ rfl hpadded hother rfl rfl (by decide)
  exact ⟨h, ⟨digits, hliteral⟩, hread, e, he, hmode⟩

end Mos6502
