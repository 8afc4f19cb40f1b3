/-
Mos6502/Proofs/SourceForm.lean

What is written is read back.  The source form of an instruction is its
mnemonic and, with the punctuation of the mode around it, the text of its
value.  Reading it goes through three stages that know nothing of each other,
and each of them inverts its part:

* the operand grammar finds the surface of the mode (`Mode.form`, `Mode.index`)
  and the text of the value (`Operand.parse?_decorate`);
* the text of the value is classified by its number of digits
  (`OperandText.classify_wordLiteral`, `classify_byteLiteral`,
  `classify_identifier`);
* surface and class together select the mode again (`select_written`).

Not every value can be written in every mode: a label in zero page would be
read as an absolute address.  `Value.Written` are those that can.
`parseLine_sourceForm` is the whole way, for a line with any indentation.
-/
import Mos6502.Proofs.OpcodeMap
import Mos6502.Proofs.OperandGrammar
import Mos6502.Proofs.Selection

namespace Mos6502

/-! ### Operands by their surface -/

/-- The surface form of an operand in a mode. -/
def Mode.form : Mode → Form
  | .immediate => .immediate
  | .zeroPageX | .zeroPageY | .absoluteX | .absoluteY => .indexed
  | .absoluteIndirect => .indirect
  | .indexedIndirect => .indexedIndirect
  | .indirectIndexed => .indirectIndexed
  | .accumulator | .implied | .zeroPage | .relative | .absolute => .bare

/-- The index letter of an operand in a mode; zero where it has none. -/
def Mode.index : Mode → UInt8
  | .zeroPageX | .absoluteX | .indexedIndirect => 0x58
  | .zeroPageY | .absoluteY | .indirectIndexed => 0x59
  | _ => 0

namespace Operand

variable {v : Bytes}

/-- **A value with the punctuation of a mode is read as that value in the
surface of the mode.** -/
theorem parse?_decorate {mode : Mode} (hmode : mode.operandLength ≠ 0) (hv : IsValueText v) :
    parse? (mode.decorate v) = some ⟨mode.form, v, mode.index, mode.decorate v⟩ := by
  have hgap := gap_nil
  have hprod : Produces mode.form v mode.index (mode.decorate v) := by
    cases mode
    case accumulator | implied => exact absurd rfl hmode
    case zeroPage | relative | absolute => exact .bare hv
    case immediate => exact .immediate hv hgap
    case zeroPageX | absoluteX => exact .indexed hv hgap hgap .upperX
    case zeroPageY | absoluteY => exact .indexed hv hgap hgap .upperY
    case absoluteIndirect => exact .indirect hv hgap hgap
    case indexedIndirect => exact .indexedIndirect hv hgap hgap hgap hgap .upperX
    case indirectIndexed => exact .indirectIndexed hv hgap hgap hgap hgap .upperY
  exact parse?_eq_some_iff.mpr ⟨rfl, hprod⟩

end Operand

/-- The punctuation of a mode is plain too. -/
theorem Mode.isPlain_decorate (mode : Mode) {v : Bytes} (hv : ∀ b ∈ v, Byte.isPlain b = true) :
    ∀ b ∈ mode.decorate v, Byte.isPlain b = true := by
  have hcons : ∀ {c : UInt8} {s : Bytes}, Byte.isPlain c = true →
      (∀ b ∈ s, Byte.isPlain b = true) → ∀ b ∈ c :: s, Byte.isPlain b = true := by
    intro c s hc hs b hb
    rcases List.mem_cons.mp hb with rfl | hb
    · exact hc
    · exact hs b hb
  have happend : ∀ {t : Bytes}, (∀ b ∈ t, Byte.isPlain b = true) →
      ∀ b ∈ v ++ t, Byte.isPlain b = true := by
    intro t ht b hb
    rcases List.mem_append.mp hb with hb | hb
    · exact hv b hb
    · exact ht b hb
  cases mode
  case accumulator | implied => exact fun b hb => absurd hb List.not_mem_nil
  case zeroPage | relative | absolute => exact hv
  case immediate => exact hcons rfl hv
  case zeroPageX | absoluteX | zeroPageY | absoluteY => exact happend (by decide +kernel)
  case absoluteIndirect | indexedIndirect | indirectIndexed =>
    exact hcons rfl (happend (by decide +kernel))

theorem Mode.decorate_ne_nil {mode : Mode} (hmode : mode.operandLength ≠ 0) {v : Bytes}
    (hv : v ≠ []) : mode.decorate v ≠ [] := by
  cases mode <;> simp_all [Mode.decorate, Mode.operandLength]

/-! ### Texts classified -/

namespace OperandText

/-- A literal of four digits is long. -/
theorem classify_wordLiteral (n : UInt16) : classify (Numeral.wordLiteral n) = .ok (.long n) := by
  have hn := Numeral.readHex?_eq_some_iff.mp (Numeral.readHex?_word n)
  exact classify_eq_ok_iff.mpr (.long (.inr (Numeral.length_word n)) hn)

/-- A literal of two digits is short. -/
theorem classify_byteLiteral {n : UInt16} (hn : n.toNat < 256) :
    classify (0x24 :: Numeral.hexAtLeast 2 n.toNat) = .ok (.short n) := by
  have hlit : Numeral.hexAtLeast 2 n.toNat = Numeral.hexPadded 2 n.toNat :=
    Numeral.hexAtLeast_of_lt (by decide) hn
  have hread : Numeral.readHex? (Numeral.hexPadded 2 n.toNat) = some n.toNat := by
    have hmod : n.toNat % 16 ^ 2 = n.toNat := Nat.mod_eq_of_lt hn
    rw [Numeral.readHex?_hexPadded (by decide), hmod]
  have hlen : (Numeral.hexPadded 2 n.toNat).length ≤ 2 := by rw [Numeral.length_hexPadded]
  rw [hlit]
  exact classify_eq_ok_iff.mpr (.short hlen (Numeral.readHex?_eq_some_iff.mp hread))

/-- An identifier is a label. -/
theorem classify_identifier {name : Bytes} (h : isIdentifier name = true) :
    classify name = .ok (.label name) := by
  obtain ⟨b, rest, rfl, hb, -⟩ := isIdentifier_iff.mp h
  apply classify_eq_ok_iff.mpr
  refine .label ?_
  rintro ⟨⟩
  cases hb

end OperandText

/-! ### Modes selected -/

/-- Whether a label written in a mode selects that mode again. -/
def Mode.takesLabel (mnemonic : Mnemonic) : Mode → Bool
  | .zeroPage => false
  | .zeroPageX => !Opcode.supports mnemonic .absoluteX
  | .zeroPageY => !Opcode.supports mnemonic .absoluteY
  | mode => mode.operandLength != 0

/-- The values that a mnemonic can be written with in a mode. -/
inductive Value.Written (mnemonic : Mnemonic) (mode : Mode) : Value → Prop
  | none : mode.operandLength = 0 → Written mnemonic mode .none
  | number {n : UInt16} : mode.operandLength ≠ 0 → n.toNat < 256 ^ mode.operandLength →
      Written mnemonic mode (.number n)
  /-- Only a branch has a destination. -/
  | target {n : UInt16} : mode = .relative → Written mnemonic mode (.target n)
  /-- A shift reads the name of the accumulator as no label. -/
  | label {name : Bytes} : isIdentifier name = true → mode.takesLabel mnemonic = true →
      (mode.form = .bare → mnemonic.isShift = true → isAccumulator name = false) →
      Written mnemonic mode (.label name)

section Select

variable {mnemonic : Mnemonic} {mode : Mode} {v raw : Bytes}

theorem modeOf_short (hsup : Opcode.supports mnemonic mode = true) (hmode : mode.operandLength = 1)
    (n : UInt16) :
    modeOf mnemonic ⟨mode.form, v, mode.index, raw⟩ (.short n) = .ok (mode, .number n) := by
  have hbranch := Opcode.isBranch_of_supports hsup
  cases mode
  case zeroPage | relative => simp [modeOf, Mode.form, hbranch]
  case immediate | zeroPageX | zeroPageY | indexedIndirect | indirectIndexed => rfl
  all_goals cases hmode

theorem modeOf_long (hsup : Opcode.supports mnemonic mode = true) (hmode : mode.operandLength = 2)
    (n : UInt16) :
    modeOf mnemonic ⟨mode.form, v, mode.index, raw⟩ (.long n) = .ok (mode, .number n) := by
  have hbranch := Opcode.isBranch_of_supports hsup
  cases mode
  case absolute => simp [modeOf, Mode.form, hbranch]
  case absoluteX | absoluteY | absoluteIndirect => rfl
  all_goals cases hmode

theorem modeOf_target (hsup : Opcode.supports mnemonic .relative = true) (n : UInt16) :
    modeOf mnemonic ⟨Mode.relative.form, v, Mode.relative.index, raw⟩ (.long n) =
      .ok (.relative, .target n) := by
  have hbranch := Opcode.isBranch_of_supports hsup
  simp [modeOf, Mode.form, hbranch]

theorem modeOf_label (hsup : Opcode.supports mnemonic mode = true)
    (hmode : mode.takesLabel mnemonic = true) (name : Bytes) :
    modeOf mnemonic ⟨mode.form, v, mode.index, raw⟩ (.label name) = .ok (mode, .label name) := by
  have hbranch := Opcode.isBranch_of_supports hsup
  cases mode <;> simp_all [modeOf, Mode.form, Mode.index, Mode.takesLabel, indexedModes,
    Mode.operandLength, OperandText.value]

theorem select_of_classify {o : Operand} {text : OperandText}
    (hacc : o.form = .bare → mnemonic.isShift = true → isAccumulator o.value = false)
    (htext : OperandText.classify o.value = .ok text) :
    select mnemonic o = modeOf mnemonic o text := by
  have hcond : (o.form == .bare && mnemonic.isShift && isAccumulator o.value) = false := by
    by_cases hform : o.form = .bare
    · by_cases hshift : mnemonic.isShift = true
      · simp [hacc hform hshift]
      · simp [hshift]
    · simp [hform]
  rw [select, hcond, if_neg Bool.false_ne_true, htext]
  rfl

theorem isAccumulator_literal (digits : Bytes) : isAccumulator (0x24 :: digits) = false := by
  simp [isAccumulator]

theorem isValueText_wordLiteral (n : UInt16) : IsValueText (Numeral.wordLiteral n) := by
  refine .literal ?_ (Numeral.forall_mem_hexPadded Numeral.isHexDigit_upperDigit 4 n.toNat)
  rw [← List.length_pos_iff, Numeral.length_word]
  decide

theorem isValueText_byteLiteral (n : Nat) : IsValueText (0x24 :: Numeral.hexAtLeast 2 n) := by
  refine .literal ?_ (Numeral.forall_mem_hexPadded Numeral.isHexDigit_upperDigit _ n)
  rw [Numeral.hexAtLeast, ← List.length_pos_iff, Numeral.length_hexPadded]
  omega

/-- **The text of a written value selects mode and value again.** -/
theorem select_written {value : Value} (hsup : Opcode.supports mnemonic mode = true)
    (hmode : mode.operandLength ≠ 0) (hw : value.Written mnemonic mode) (raw : Bytes) :
    IsValueText (value.text mode.isLong) ∧
      select mnemonic ⟨mode.form, value.text mode.isLong, mode.index, raw⟩ = .ok (mode, value) := by
  cases hw with
  | none hzero => exact absurd hzero hmode
  | @number n _ hn =>
    have hlen : mode.operandLength = 1 ∨ mode.operandLength = 2 := by
      cases mode <;> simp_all [Mode.operandLength]
    rcases hlen with hlen | hlen
    · have hlong : mode.isLong = false := by simp [Mode.isLong, hlen]
      have htext : (Value.number n).text mode.isLong = 0x24 :: Numeral.hexAtLeast 2 n.toNat := by
        rw [hlong]
        rfl
      rw [hlen] at hn
      rw [htext]
      refine ⟨isValueText_byteLiteral n.toNat, ?_⟩
      rw [select_of_classify (fun _ _ => isAccumulator_literal _)
        (OperandText.classify_byteLiteral hn)]
      exact modeOf_short hsup hlen n
    · have hlong : mode.isLong = true := by simp [Mode.isLong, hlen]
      have htext : (Value.number n).text mode.isLong = Numeral.wordLiteral n := by
        rw [hlong]
        rfl
      rw [htext]
      refine ⟨isValueText_wordLiteral n, ?_⟩
      rw [select_of_classify (fun _ _ => isAccumulator_literal _)
        (OperandText.classify_wordLiteral n)]
      exact modeOf_long hsup hlen n
  | @target n hrel =>
    subst hrel
    refine ⟨isValueText_wordLiteral n, ?_⟩
    show select mnemonic ⟨_, Numeral.wordLiteral n, _, raw⟩ = _
    rw [select_of_classify (fun _ _ => isAccumulator_literal _)
      (OperandText.classify_wordLiteral n)]
    exact modeOf_target hsup n
  | @label name hname htakes hacc =>
    refine ⟨.identifier hname, ?_⟩
    show select mnemonic ⟨_, name, _, raw⟩ = _
    rw [select_of_classify hacc (OperandText.classify_identifier hname)]
    exact modeOf_label hsup htakes name

end Select

/-! ### Lines -/

namespace Mnemonic

theorem mem_all (m : Mnemonic) : m ∈ all := by
  cases m <;> decide

/-- The name of a mnemonic has three letters and is found under itself. -/
theorem name_spec : ∀ m ∈ all, (ascii m.name).length = 3 ∧ isIdentifier (ascii m.name) = true ∧
    byName.lookup (upperCase (ascii m.name)) = some m := by
  decide +kernel

theorem isIdentifier_name (m : Mnemonic) : isIdentifier (ascii m.name) = true :=
  (name_spec m m.mem_all).2.1

theorem ofName?_name (m : Mnemonic) : ofName? (ascii m.name) = some m := by
  have hinked : Text.Inked (ascii m.name) := Text.inked_of_forall fun b hb =>
    Byte.isInk_of_isPlain (isPlain_of_mem_identifier m.isIdentifier_name hb)
  rw [ofName?, Text.trim_of_inked hinked]
  exact (name_spec m m.mem_all).2.2

end Mnemonic

theorem Expression.ofNode_of_selectOptional {mnemonic : Mnemonic} {mode : Mode} {value : Value}
    {o : Option Operand} (hsup : Opcode.supports mnemonic mode = true)
    (h : selectOptional mnemonic o = .ok (mode, value)) (line : Int) (labels : List Bytes) :
    Expression.ofNode (.instruction line labels (ascii mnemonic.name) o) =
      .ok ⟨mnemonic, mode, value, line⟩ :=
  Expression.ofNode_eq_ok_iff.mpr ⟨labels, _, o, rfl, mnemonic.ofName?_name, h, hsup⟩

/-- A written instruction is its mnemonic alone, or the mnemonic, a space and
the value in the punctuation of the mode. -/
theorem sourceForm_written {mnemonic : Mnemonic} {mode : Mode} {value : Value}
    (hw : value.Written mnemonic mode) :
    (mode.operandLength = 0 ∧ value = .none ∧
      sourceForm (some mnemonic) (some mode) value = ascii mnemonic.name) ∨
    (mode.operandLength ≠ 0 ∧ sourceForm (some mnemonic) (some mode) value =
      ascii mnemonic.name ++ 0x20 :: mode.decorate (value.text mode.isLong)) := by
  by_cases hmode : mode.operandLength = 0
  · refine .inl ⟨hmode, ?_, ?_⟩
    · cases hw with
      | none => rfl
      | number hne => exact absurd hmode hne
      | target hrel =>
        rw [hrel] at hmode
        cases hmode
      | label _ htakes => cases mode <;> simp_all [Mode.takesLabel, Mode.operandLength]
    · cases mode <;> first | rfl | cases hmode
  · refine .inr ⟨hmode, ?_⟩
    cases mode <;> first | rfl | exact absurd rfl hmode

/-- A written instruction has no white space at its edges, and inside only
plain bytes and spaces. -/
theorem sourceForm_inked {mnemonic : Mnemonic} {mode : Mode} {value : Value}
    (hsup : Opcode.supports mnemonic mode = true) (hw : value.Written mnemonic mode) :
    Text.Inked (sourceForm (some mnemonic) (some mode) value) ∧
      ∀ b ∈ sourceForm (some mnemonic) (some mode) value, b = 0x20 ∨ Byte.isPlain b = true := by
  have hname : ∀ b ∈ ascii mnemonic.name, Byte.isPlain b = true := fun b hb =>
    isPlain_of_mem_identifier mnemonic.isIdentifier_name hb
  rcases sourceForm_written hw with ⟨-, -, hform⟩ | ⟨hmode, hform⟩ <;> rw [hform]
  · exact ⟨Text.inked_of_forall fun b hb => Byte.isInk_of_isPlain (hname b hb),
      fun b hb => .inr (hname b hb)⟩
  · obtain ⟨hv, -⟩ := select_written hsup hmode hw []
    have hop := mode.isPlain_decorate hv.isPlain
    refine ⟨inked_instruction mnemonic.isIdentifier_name hop
      (Mode.decorate_ne_nil hmode hv.ne_nil), ?_⟩
    intro b hb
    rcases List.mem_append.mp hb with hb | hb
    · exact .inr (hname b hb)
    · rcases List.mem_cons.mp hb with hb | hb
      · exact .inl hb
      · exact .inr (hop b hb)

/-- **A written instruction is read back**, from a line with any
indentation. -/
theorem parseLine_sourceForm {mnemonic : Mnemonic} {mode : Mode} {value : Value}
    (hsup : Opcode.supports mnemonic mode = true) (hw : value.Written mnemonic mode)
    (number indent : Nat) :
    ∃ o, parseLine number (List.replicate indent 0x20 ++
        sourceForm (some mnemonic) (some mode) value) =
          .ok (some (.instruction number [] (ascii mnemonic.name) o)) ∧
      Expression.ofNode (.instruction number [] (ascii mnemonic.name) o) =
        .ok ⟨mnemonic, mode, value, number⟩ := by
  rcases sourceForm_written hw with ⟨hmode, rfl, hform⟩ | ⟨hmode, hform⟩ <;> rw [hform]
  · have hselect : selectOptional mnemonic none = .ok (mode, .none) := by
      rw [selectOptional, Opcode.isShift_of_supports hsup hmode]
      cases mode <;> first | rfl | cases hmode
    exact ⟨none, parseLine_mnemonic mnemonic.isIdentifier_name number indent,
      Expression.ofNode_of_selectOptional hsup hselect number []⟩
  · obtain ⟨hv, hselect⟩ := select_written hsup hmode hw (mode.decorate (value.text mode.isLong))
    refine ⟨_, ?_, Expression.ofNode_of_selectOptional (o := some _) hsup hselect number []⟩
    exact parseLine_instruction mnemonic.isIdentifier_name (mode.isPlain_decorate hv.isPlain)
      (Mode.decorate_ne_nil hmode hv.ne_nil) (Operand.parse?_decorate hmode hv) number indent

end Mos6502
