/-
Mos6502/Proofs/Selection.lean

What the choice of a mode promises.  A value fits a mode if the operand bytes
of the mode can hold it: no value where there are none, a number below
`256 ^ operandLength`, or a label, whose value comes later.

The text of an operand is classified without regard to its surroundings, and
`OperandText.classify_eq_ok_iff` says for what.  `Expression.ofNode_spec`: an
accepted node gives a mnemonic with an opcode for its mode and a value that
fits the mode; the one exception is the destination of a branch, which fits
after it has become a displacement.  The bound on short literals is the only
arithmetic: two digits are worth less than 256.
-/
import Mos6502.Proofs.Fallible
import Mos6502.Proofs.Numerals
import Mos6502.Selection

namespace Mos6502

/-! ### Values that fit -/

/-- Whether the operand bytes of a mode can hold a value.  The destination of
a branch is no operand yet. -/
def Value.Fits (mode : Mode) : Value → Prop
  | .none => mode.operandLength = 0
  | .number n => mode.operandLength ≠ 0 ∧ n.toNat < 256 ^ mode.operandLength
  | .label _ => mode.operandLength ≠ 0
  | .target _ => False

/-- An expression that has an opcode and an operand that fits. -/
structure Expression.Encodable (e : Expression) : Prop where
  supported : Opcode.supports e.mnemonic e.mode = true
  fits : e.operand.Fits e.mode

/-- An expression as it leaves the choice of its mode: its operand fits, or it
is a branch to a destination. -/
structure Expression.Selected (e : Expression) : Prop where
  supported : Opcode.supports e.mnemonic e.mode = true
  fits : e.operand.Fits e.mode ∨ ∃ n, e.operand = .target n ∧ e.mode = .relative

theorem Expression.Encodable.opcode {e : Expression} (h : e.Encodable) :
    ∃ byte, e.opcode? = some byte :=
  Option.isSome_iff_exists.mp h.supported

/-! ### Operand texts -/

namespace OperandText

/-- What the text of an operand is: a literal of one or two digits, one of
three or four, or anything without a dollar sign in front. -/
inductive Classified : Bytes → OperandText → Prop
  | label {name : Bytes} : name.head? ≠ some 0x24 → Classified name (.label name)
  | short {digits : Bytes} {n : UInt16} : digits.length ≤ 2 → Numeral.Denotes 16 digits n.toNat →
      Classified (0x24 :: digits) (.short n)
  | long {digits : Bytes} {n : UInt16} : digits.length = 3 ∨ digits.length = 4 →
      Numeral.Denotes 16 digits n.toNat → Classified (0x24 :: digits) (.long n)

/-- Four digits are a word. -/
theorem toNat_toUInt16_of_denotes {digits : Bytes} {n : Nat} (hlen : digits.length ≤ 4)
    (h : Numeral.Denotes 16 digits n) : n.toUInt16.toNat = n := by
  have hn : n < 16 ^ 4 := Nat.lt_of_lt_of_le h.lt (Nat.pow_le_pow_right (by decide) hlen)
  rw [Nat.toUInt16, UInt16.toNat_ofNat']
  omega

/-- **Classification is exact**: it accepts the labels and the literals of one
to four digits, each for what it is. -/
theorem classify_eq_ok_iff {text : Bytes} {t : OperandText} :
    classify text = .ok t ↔ Classified text t := by
  constructor
  · intro h
    unfold classify at h
    split at h
    · next digits =>
      rcases hr : Numeral.readHex? digits with - | n
      · rw [hr] at h
        cases h
      · have hn := Numeral.readHex?_eq_some_iff.mp hr
        simp only [hr] at h
        split at h
        · next hlen =>
          cases h
          exact .short hlen ((toNat_toUInt16_of_denotes (by omega) hn).symm ▸ hn)
        · split at h
          · cases h
            exact .long (by omega) ((toNat_toUInt16_of_denotes (by omega) hn).symm ▸ hn)
          · cases h
    · next hname =>
      cases h
      refine .label ?_
      intro hhead
      obtain ⟨digits, rfl⟩ := List.head?_eq_some_iff.mp hhead
      exact hname digits rfl
  · rintro (hname | ⟨hlen, hn⟩ | ⟨hlen, hn⟩)
    · unfold classify
      split
      · exact absurd rfl hname
      · rfl
    · rw [classify, Numeral.readHex?_eq_some_iff.mpr hn]
      dsimp only
      rw [if_pos hlen, Nat.toUInt16, UInt16.ofNat_toNat]
    · rw [classify, Numeral.readHex?_eq_some_iff.mpr hn]
      dsimp only
      rw [if_neg (by omega), if_pos (by omega), Nat.toUInt16, UInt16.ofNat_toNat]

/-- A short literal is a byte. -/
theorem classify_short {text : Bytes} {n : UInt16} (h : classify text = .ok (.short n)) :
    n.toNat < 256 := by
  cases classify_eq_ok_iff.mp h with
  | @short digits _ hlen hn =>
    calc n.toNat < 16 ^ digits.length := hn.lt
      _ ≤ 16 ^ 2 := Nat.pow_le_pow_right (by decide) hlen

end OperandText

/-! ### Modes -/

theorem operandLength_indexedModes (index : UInt8) :
    (indexedModes index).1.operandLength = 1 ∧ (indexedModes index).2.operandLength = 2 := by
  unfold indexedModes
  split <;> exact ⟨rfl, rfl⟩

/-- Every text but a long literal fits a byte. -/
theorem OperandText.value_fits_byte (text : OperandText) {mode : Mode}
    (hmode : mode.operandLength = 1) (hshort : ∀ n, text = .short n → n.toNat < 256)
    (hlong : ∀ n, text ≠ .long n) : text.value.Fits mode := by
  rcases text with name | n | n
  · show mode.operandLength ≠ 0
    omega
  · refine ⟨by omega, ?_⟩
    rw [hmode]
    exact hshort n rfl
  · exact absurd rfl (hlong n)

/-- Every text fits a word. -/
theorem OperandText.value_fits_word (text : OperandText) {mode : Mode}
    (hmode : mode.operandLength = 2) : text.value.Fits mode := by
  have hnumber : ∀ n : UInt16, (Value.number n).Fits mode := by
    intro n
    refine ⟨by omega, ?_⟩
    rw [hmode]
    exact n.toNat_lt
  rcases text with name | n | n
  · show mode.operandLength ≠ 0
    omega
  · exact hnumber n
  · exact hnumber n

/-- The value of a classified operand fits the mode chosen for it, unless it
is the destination of a branch. -/
theorem modeOf_fits {mnemonic : Mnemonic} {operand : Operand} {text : OperandText} {mode : Mode}
    {value : Value} (hshort : ∀ n, text = .short n → n.toNat < 256)
    (h : modeOf mnemonic operand text = .ok (mode, value)) :
    value.Fits mode ∨ ∃ n, value = .target n ∧ mode = .relative := by
  obtain ⟨hnear, hfar⟩ := operandLength_indexedModes operand.index
  unfold modeOf at h
  split at h
  -- bare: a branch has one operand byte whatever the text is
  · next name _ =>
    cases h
    split
    · exact .inl (OperandText.value_fits_byte (.label name) rfl (by simp) (by simp))
    · exact .inl (OperandText.value_fits_word (.label name) rfl)
  · next n _ =>
    cases h
    split
    · exact .inl (OperandText.value_fits_byte _ rfl hshort (by simp))
    · exact .inl (OperandText.value_fits_byte _ rfl hshort (by simp))
  · next n _ =>
    split at h
    · cases h
      exact .inr ⟨n, rfl, rfl⟩
    · cases h
      exact .inl (OperandText.value_fits_word (.long n) rfl)
  -- immediate
  · cases h
  · next hlong =>
    cases h
    exact .inl (OperandText.value_fits_byte _ rfl hshort hlong)
  -- indexed: the near mode has one operand byte, the far one two
  · cases h
    exact .inl (OperandText.value_fits_byte _ hnear hshort (by simp))
  · next n _ =>
    cases h
    exact .inl (OperandText.value_fits_word (.long n) hfar)
  · next name _ =>
    cases h
    split
    · exact .inl (OperandText.value_fits_word (.label name) hfar)
    · exact .inl (OperandText.value_fits_byte (.label name) hnear (by simp) (by simp))
  -- pointers
  · next text _ =>
    cases h
    exact .inl (OperandText.value_fits_word _ rfl)
  · cases h
  · cases h
  · next hlong =>
    cases h
    exact .inl (OperandText.value_fits_byte _ rfl hshort hlong)
  · next hlong =>
    cases h
    exact .inl (OperandText.value_fits_byte _ rfl hshort hlong)
  · cases h

theorem selectOptional_fits {mnemonic : Mnemonic} {operand : Option Operand} {mode : Mode}
    {value : Value} (h : selectOptional mnemonic operand = .ok (mode, value)) :
    value.Fits mode ∨ ∃ n, value = .target n ∧ mode = .relative := by
  cases operand with
  | none =>
    cases h
    cases mnemonic.isShift <;> exact .inl rfl
  | some operand =>
    simp only [selectOptional, select] at h
    split at h
    · cases h
      exact .inl rfl
    · obtain ⟨text, htext, h⟩ := bind_eq_ok_iff.mp h
      refine modeOf_fits ?_ h
      rintro n rfl
      exact OperandText.classify_short htext

/-- An accepted node is an instruction with a known mnemonic that has an opcode
for the mode chosen. -/
theorem Expression.ofNode_eq_ok_iff {node : Node} {e : Expression} :
    Expression.ofNode node = .ok e ↔ ∃ labels name operand,
      node = .instruction e.line labels name operand ∧
        Mnemonic.ofName? name = some e.mnemonic ∧
        selectOptional e.mnemonic operand = .ok (e.mode, e.operand) ∧
        Opcode.supports e.mnemonic e.mode = true := by
  constructor
  · intro h
    unfold Expression.ofNode at h
    split at h
    · next labels name operand =>
      split at h
      · cases h
      · next hname =>
        split at h
        · cases h
        · next hselect =>
          split at h
          · next hsupports =>
            cases h
            exact ⟨labels, name, operand, rfl, hname, hselect, hsupports⟩
          · cases h
    · cases h
  · rintro ⟨labels, name, operand, rfl, hname, hselect, hsupports⟩
    simp only [Expression.ofNode, hname, hselect, hsupports, if_true]

/-- **What an accepted node promises**: its mnemonic has an opcode for the
chosen mode, and its operand fits the mode or is the destination of a
branch. -/
theorem Expression.ofNode_spec {node : Node} {e : Expression}
    (h : Expression.ofNode node = .ok e) : e.Selected := by
  obtain ⟨_, _, _, -, -, hselect, hsupports⟩ := Expression.ofNode_eq_ok_iff.mp h
  exact ⟨hsupports, selectOptional_fits hselect⟩

end Mos6502
