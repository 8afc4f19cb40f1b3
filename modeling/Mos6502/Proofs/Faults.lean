/-
Mos6502/Proofs/Faults.lean

What can go wrong between a source text and a linked image, and what cannot.
Each stage checks again what the stage before it has promised: the choice of a
mode looks at the form of an operand and at the digits of a literal, emission
looks for the opcode, and the linker looks at the kind of a relocation and at
the bounds of its slot.  For programs that come from a text none of these
second checks ever fails:

* `parse_operand` — an operand that was read has one of the six forms, and its
  text is a literal or an identifier;
* `ofNode_fault` — so a mode is only refused for the width of a literal;
* `build_eq_error` — the faults of the pass itself;
* `rawBytes_fault`, `link_fault` — the faults of emission and of linking.

`assemble_link_faults` puts the stages together.
-/
import Mos6502.Proofs.Branches
import Mos6502.Proofs.LineGrammar
import Mos6502.Proofs.SourceForm

namespace Mos6502

/-! ### Operands that were read -/

/-- An operand that was read has a form of the language, and its value is a
literal or an identifier. -/
theorem Operand.parse?_spec {s : Bytes} {o : Operand} (h : parse? s = some o) :
    o.form ≠ .other ∧ IsValueText o.value := by
  obtain ⟨-, hprod⟩ := parse?_eq_some_iff.mp h
  exact ⟨hprod.ne_other, hprod.isValueText⟩

/-- The nodes of a text come from its lines, but for the one at the end. -/
theorem mem_parse {source : Bytes} {nodes : List Node} (h : parse source = .ok nodes) {node : Node}
    (hnode : node ∈ nodes) :
    (∃ number line, parseLine number line = .ok (some node)) ∨ ∃ line, node = .finish line := by
  unfold parse at h
  obtain ⟨read, hread, h⟩ := bind_eq_ok_iff.mp h
  cases h
  rcases List.mem_append.mp hnode with hmem | hmem
  · obtain ⟨found, hfound, hsome⟩ := List.mem_filterMap.mp hmem
    cases hsome
    obtain ⟨⟨line, number⟩, -, hline⟩ := exists_of_mem_mapM hread hfound
    exact .inl ⟨number, line, hline⟩
  · exact .inr ⟨_, List.mem_singleton.mp hmem⟩

/-- **An operand of a text** has one of the six forms and a literal or an
identifier for its value. -/
theorem parse_operand {source : Bytes} {nodes : List Node} (h : parse source = .ok nodes)
    {line : Int} {labels : List Bytes} {name : Bytes} {o : Operand}
    (hnode : Node.instruction line labels name (some o) ∈ nodes) :
    o.form ≠ .other ∧ IsValueText o.value := by
  rcases mem_parse h hnode with ⟨number, text, hline⟩ | ⟨_, hfinish⟩
  · obtain ⟨r, -, -, hgives⟩ := parseLine_eq_node_iff.mp hline
    cases hgives with
    | operand _ ho => exact Operand.parse?_spec ho
  · cases hfinish

/-! ### Literals -/

namespace Numeral

theorem exists_digit_of_isHexDigit {b : UInt8} (h : Byte.isHexDigit b = true) :
    ∃ d, Digit 16 b d := by
  simp only [Byte.isHexDigit, Byte.isDigit, Bool.or_eq_true, Bool.and_eq_true, decide_eq_true_eq,
    UInt8.le_iff_toNat_le, UInt8.reduceToNat] at h
  rcases h with (h | h) | h
  · exact ⟨b.toNat - 0x30, .decimal (by omega) (by omega) (by omega)⟩
  · exact ⟨10 + (b.toNat - 0x41), .upper (by omega) (by omega)⟩
  · exact ⟨10 + (b.toNat - 0x61), .lower (by omega) (by omega)⟩

/-- Hexadecimal digits that are not empty can be read. -/
theorem exists_readHex? {digits : Bytes} (hne : digits ≠ [])
    (hdigits : ∀ b ∈ digits, Byte.isHexDigit b = true) : ∃ n, readHex? digits = some n := by
  obtain ⟨n, hn⟩ := exists_denotes hne fun b hb => exists_digit_of_isHexDigit (hdigits b hb)
  exact ⟨n, readHex?_eq_some_iff.mpr hn⟩

end Numeral

/-- The digits of a literal are a numeral, and four of them are a word. -/
theorem IsValueText.exists_readHex? {digits : Bytes} (h : IsValueText (0x24 :: digits)) :
    ∃ n, Numeral.readHex? digits = some n ∧ (digits.length ≤ 4 → n < 0x10000) := by
  cases h with
  | literal hne hdigits =>
    obtain ⟨n, hn⟩ := Numeral.exists_readHex? hne hdigits
    refine ⟨n, hn, ?_⟩
    intro hlen
    calc n < 16 ^ digits.length := Numeral.readHex?_lt hn
      _ ≤ 16 ^ 4 := Nat.pow_le_pow_right (by decide) hlen
  | identifier hname => cases hname

/-- A value is only refused for having too many digits. -/
theorem OperandText.classify_eq_error {v : Bytes} (hv : IsValueText v) {e : OperandError}
    (h : classify v = .error e) : e = .literalTooWide v := by
  unfold classify at h
  split at h
  · next digits =>
    obtain ⟨n, hn, -⟩ := hv.exists_readHex?
    simp only [hn] at h
    repeat' split at h
    all_goals cases h
    rfl
  · cases h

/-! ### Modes -/

theorem modeOf_fault {mnemonic : Mnemonic} {o : Operand} {text : OperandText} {e : OperandError}
    (hform : o.form ≠ .other) (h : modeOf mnemonic o text = .error e) :
    e.fault = .operandTooWide := by
  unfold modeOf at h
  split at h
  all_goals cases h
  -- what is left: an immediate operand, two kinds of pointer, and the form that was excluded
  · rfl
  · rfl
  · rfl
  · next hother => exact absurd hother hform

theorem select_fault {mnemonic : Mnemonic} {o : Operand} {e : OperandError}
    (hform : o.form ≠ .other) (hvalue : IsValueText o.value)
    (h : select mnemonic o = .error e) : e.fault = .operandTooWide := by
  unfold select at h
  split at h
  · cases h
  · rcases bind_eq_error_iff.mp h with hclassify | ⟨text, -, hmode⟩
    · rw [OperandText.classify_eq_error hvalue hclassify]
      rfl
    · exact modeOf_fault hform hmode

/-- **An instruction of a text** is refused for its mnemonic, for the width of
a literal, or for a mode that its mnemonic has not. -/
theorem ofNode_fault {source : Bytes} {nodes : List Node} (hparse : parse source = .ok nodes)
    {node : Node} (hnode : node ∈ nodes) (hkind : node.kind = .instruction)
    {e : ExpressionError} (h : Expression.ofNode node = .error e) :
    (∃ line text, e = .unknownMnemonic line text) ∨
      (∃ line cause, e = .operand line cause ∧ cause.fault = .operandTooWide) ∨
      ∃ line mnemonic mode, e = .unsupported line mnemonic mode := by
  cases node with
  | label | finish | other => cases hkind
  | instruction line labels name operand =>
    simp only [Expression.ofNode] at h
    split at h
    · cases h
      exact .inl ⟨_, _, rfl⟩
    · split at h
      · next cause hselect =>
        cases h
        refine .inr (.inl ⟨_, cause, rfl, ?_⟩)
        cases operand with
        | none => cases hselect
        | some o =>
          obtain ⟨hform, hvalue⟩ := parse_operand hparse hnode
          exact select_fault hform hvalue hselect
      · split at h
        · cases h
        · cases h
          exact .inr (.inr ⟨_, _, _, rfl⟩)

/-- An operand of a text is refused for the width of a literal only. -/
theorem operand_fault {source : Bytes} {nodes : List Node} (hparse : parse source = .ok nodes)
    {node : Node} (hnode : node ∈ nodes) {line : Int} {cause : OperandError}
    (h : Expression.ofNode node = .error (.operand line cause)) :
    cause.fault = .operandTooWide := by
  cases node with
  | label | finish | other => cases h
  | instruction =>
    rcases ofNode_fault hparse hnode rfl h with ⟨_, _, heq⟩ | ⟨_, _, heq, hwide⟩ | ⟨_, _, _, heq⟩
    · cases heq
    · cases heq
      exact hwide
    · cases heq

/-! ### The pass -/

namespace Builder

theorem defineAll_fault {address : Nat} {index : Option Nat} {symbols : Array Symbol}
    {labels : List PendingLabel} {e : BuildError}
    (h : defineAll address index symbols labels = .error e) :
    e.fault = .duplicateLabel ∨ e.fault = .valueOutOfRange := by
  obtain ⟨-, label, -, symbols', -, -, hdefine⟩ := foldlM_eq_error h
  unfold define at hdefine
  split at hdefine
  · cases hdefine
    exact .inl rfl
  · split at hdefine
    · cases hdefine
      exact .inr rfl
    · cases hdefine

theorem resolveTarget_fault {address : Nat} {x : Expression} {e : BuildError}
    (h : resolveTarget address x = .error e) : e.fault = .branchOutOfRange := by
  unfold resolveTarget at h
  split at h
  · split at h
    · cases h
    · cases h
      rfl
  · cases h

theorem place_fault {b : Builder} {line : Int} {labels : List Bytes} {x : Expression}
    {e : BuildError} (h : b.place line labels x = .error e) :
    e.fault ∈ [.duplicateLabel, .branchOutOfRange, .valueOutOfRange] := by
  unfold place at h
  rcases bind_eq_error_iff.mp h with htarget | ⟨x', -, h⟩
  · simp [resolveTarget_fault htarget]
  · rcases bind_eq_error_iff.mp h with hsymbols | ⟨symbols, -, h⟩
    · rcases defineAll_fault hsymbols with hfault | hfault <;> simp [hfault]
    · dsimp only at h
      split at h
      · cases h
        simp [BuildError.fault]
      · cases h

end Builder

/-- Why a list of nodes is no program: an instruction among them gives no
expression, or a label, a branch or the size is at fault. -/
theorem build_eq_error {nodes : List Node} {e : BuildError} (h : build nodes = .error e) :
    (∃ node ∈ nodes, node.kind = .instruction ∧ ∃ cause, Expression.ofNode node = .error cause ∧
      e = .expression cause) ∨
    e.fault ∈ [.duplicateLabel, .branchOutOfRange, .valueOutOfRange] := by
  unfold build at h
  rcases bind_eq_error_iff.mp h with hrun | ⟨b, -, hfinish⟩
  · -- the pass has stopped at a node before the end
    obtain ⟨before, node, after, b, hnodes, -, hstep⟩ := foldlM_eq_error hrun
    have hmem : node ∈ nodes := by
      apply (List.takeWhile_prefix _).subset
      rw [hnodes]
      simp
    unfold Builder.step at hstep
    split at hstep
    · split at hstep
      · next cause hcause =>
        cases hstep
        exact .inl ⟨_, hmem, rfl, cause, hcause, rfl⟩
      · exact .inr (Builder.place_fault hstep)
    all_goals cases hstep
  · unfold Builder.finish at hfinish
    rcases bind_eq_error_iff.mp hfinish with hsymbols | ⟨_, -, hok⟩
    · rcases Builder.defineAll_fault hsymbols with hfault | hfault <;> simp [hfault]
    · cases hok

/-! ### Emission and linking -/

namespace Program

variable {p : Program}

/-- Emission has an opcode for every expression of a built program. -/
theorem rawBytes_fault (hp : p.WellFormed) {e : EmitError} (h : p.rawBytes = .error e) :
    (∃ cause, e = .symbol cause) ∧ (e.fault = .undefinedSymbol ∨ e.fault = .branchOutOfRange) := by
  obtain ⟨-, i, -, cause, -, -, hfault, rfl⟩ := (rawBytes_eq_error_iff hp).mp h
  refine ⟨⟨cause, rfl⟩, ?_⟩
  cases hfault with
  | undeclared => exact .inl rfl
  | outOfReach => exact .inr rfl

/-- Every slot lies inside the section. -/
theorem slot_le_length (hp : p.WellFormed) {raw : Bytes} (hraw : p.rawBytes = .ok raw)
    {r : Relocation} (hr : r ∈ p.relocations) : r.offset.toNat + r.kind.width ≤ raw.length := by
  obtain ⟨i, hi, hri⟩ := exists_records hp hr
  rw [hri.slot_end, length_rawBytes hp hraw]
  exact (hp.laidOut.bounds hi).2

/-- A relocation of a built program has a kind that the linker knows and a
slot inside the section, so it is refused for the value of its symbol. -/
theorem patchOf_fault (hp : p.WellFormed) {raw : Bytes} (hraw : p.rawBytes = .ok raw)
    {r : Relocation} (hr : r ∈ p.relocations) {origin : UInt16} {externs : SymbolMap}
    {e : LinkError} (h : patchOf origin p.symbolMap externs raw.length r = .error e) :
    ∃ cause, e = .symbol cause ∧
      cause.fault ∈ [.undefinedSymbol, .branchOutOfRange, .valueOutOfRange] := by
  obtain ⟨i, -, hri⟩ := exists_records hp hr
  cases patchOf_eq_error_iff.mp h with
  | undefined => exact ⟨_, rfl, by simp [undefinedSymbol]⟩
  | outside _ houtside => exact absurd houtside (Nat.not_lt.mpr (slot_le_length hp hraw hr))
  | unknown _ _ hunknown =>
    -- the kind was made from a mode, and no mode gives one that is unknown
    have hkind := hri.kind
    rw [hunknown] at hkind
    cases hmode : i.expression.mode <;> rw [hmode] at hkind <;> cases hkind
  | tooLarge => exact ⟨_, rfl, by simp [doesNotFit]⟩
  | tooFar => exact ⟨_, rfl, by simp [doesNotReach]⟩

/-- **Linking a built program** fails with emission, for want of room, or for
the value of a symbol. -/
theorem link_fault (hp : p.WellFormed) {origin : UInt16} {externs : SymbolMap} {e : LinkError}
    (h : p.link origin externs = .error e) :
    (∃ cause, e = .emit cause ∧ p.rawBytes = .error cause) ∨
      (∃ length, e = .overrun length origin) ∨
      ∃ cause, e = .symbol cause ∧
        cause.fault ∈ [.undefinedSymbol, .branchOutOfRange, .valueOutOfRange] := by
  rcases hraw : p.rawBytes with cause | raw
  · left
    simp only [link, toSection, hraw] at h
    cases h
    exact ⟨cause, rfl, rfl⟩
  · right
    rw [link, toSection_of_rawBytes hraw] at h
    rcases link_eq_error_iff.mp h with ⟨-, rfl⟩ | ⟨-, hrun⟩
    · exact .inl ⟨raw.length, rfl⟩
    · obtain ⟨before, r, after, hrs, -, hpatch⟩ := applyAll_eq_error_iff.mp hrun
      have hr : r ∈ p.relocations := by
        rw [show p.relocations = before ++ r :: after from hrs]
        simp
      rw [List.size_toArray] at hpatch
      exact .inr (patchOf_fault hp hraw hr hpatch)

end Program

/-! ### From a text to an image -/

/-- What can go wrong with a text at an origin with some externs. -/
structure FaultsOf (source : Bytes) (origin : UInt16) (externs : SymbolMap) : Prop where
  /-- A text that is not assembled is in one of seven classes; it is malformed
  exactly if it cannot be read. -/
  assembles : ∀ e, assemble source = .error e →
    e.fault ∈ [.malformed, .unknownMnemonic, .unsupportedMode, .operandTooWide, .duplicateLabel,
      .branchOutOfRange, .valueOutOfRange] ∧
    (e.fault = .malformed ↔ ∃ cause, parse source = .error cause ∧ e = .parse cause)
  /-- The form of every operand is one of the language, and a literal is a
  numeral that fits its digits. -/
  operands : ∀ nodes, parse source = .ok nodes → ∀ line labels name o,
    Node.instruction line labels name (some o) ∈ nodes → o.form ≠ .other ∧
      ∀ digits, o.value = 0x24 :: digits →
        ∃ n, Numeral.readHex? digits = some n ∧ (digits.length ≤ 4 → n < 0x10000)
  /-- An operand is refused for its width and for nothing else. -/
  expressions : ∀ nodes, parse source = .ok nodes → ∀ node ∈ nodes, ∀ line cause,
    Expression.ofNode node = .error (.operand line cause) →
      cause.fault = .operandTooWide ∧ (∀ text, cause ≠ .malformedLiteral text) ∧
        ∀ form, cause ≠ .unhandledForm form
  /-- Emission never lacks an opcode. -/
  emits : ∀ p, assemble source = .ok p → ∀ e, p.rawBytes = .error e →
    (e.fault = .undefinedSymbol ∨ e.fault = .branchOutOfRange) ∧
      ∀ line mnemonic mode, e ≠ .unsupported line mnemonic mode
  /-- Linking never meets a relocation outside the section or of a kind it
  does not know. -/
  links : ∀ p, assemble source = .ok p → ∀ e, p.link origin externs = .error e →
    e.fault ∈ [.undefinedSymbol, .branchOutOfRange, .valueOutOfRange] ∧
      (∀ r length, e ≠ .outside r length) ∧ ∀ number, e ≠ .unknownKind number
  /-- Every relocation has room for the bytes it stores. -/
  stores : ∀ p raw, assemble source = .ok p → p.rawBytes = .ok raw → ∀ r ∈ p.relocations,
    r.offset.toNat + r.kind.width ≤ raw.length

/-- What an assembly error says about the two stages behind it. -/
theorem assemble_eq_error {source : Bytes} {e : AssembleError} (h : assemble source = .error e) :
    (∃ cause, parse source = .error cause ∧ e = .parse cause) ∨
      ∃ nodes cause, parse source = .ok nodes ∧ build nodes = .error cause ∧ e = .build cause := by
  unfold assemble at h
  split at h
  · next cause hparse =>
    cases h
    exact .inl ⟨cause, hparse, rfl⟩
  · next nodes hparse =>
    split at h
    · next cause hbuild =>
      cases h
      exact .inr ⟨nodes, cause, hparse, hbuild, rfl⟩
    · cases h

theorem assemble_eq_ok {source : Bytes} {p : Program} (h : assemble source = .ok p) :
    ∃ nodes, parse source = .ok nodes ∧ build nodes = .ok p := by
  unfold assemble at h
  split at h
  · cases h
  · next nodes hparse =>
    split at h
    · cases h
    · next hbuild =>
      cases h
      exact ⟨nodes, hparse, hbuild⟩

/-- The classes of a build error on a text that was read. -/
theorem build_fault {source : Bytes} {nodes : List Node} (hparse : parse source = .ok nodes)
    {e : BuildError} (h : build nodes = .error e) :
    e.fault ∈ [.unknownMnemonic, .unsupportedMode, .operandTooWide, .duplicateLabel,
      .branchOutOfRange, .valueOutOfRange] := by
  rcases build_eq_error h with ⟨node, hnode, hkind, cause, hcause, rfl⟩ | hfault
  · rcases ofNode_fault hparse hnode hkind hcause with
      ⟨line, text, rfl⟩ | ⟨line, cause, rfl, hwide⟩ | ⟨line, mnemonic, mode, rfl⟩
    · simp [BuildError.fault, ExpressionError.fault]
    · simp [BuildError.fault, ExpressionError.fault, hwide]
    · simp [BuildError.fault, ExpressionError.fault]
  · simp only [List.mem_cons, List.not_mem_nil, or_false] at hfault ⊢
    tauto

/-- **The faults of every text are known**, at every origin and with every
table of externs. -/
theorem assemble_link_faults (source : Bytes) (origin : UInt16) (externs : SymbolMap) :
    FaultsOf source origin externs where
  assembles := by
    intro e he
    rcases assemble_eq_error he with ⟨cause, hparse, rfl⟩ | ⟨nodes, cause, hparse, hbuild, rfl⟩
    · exact ⟨by simp [AssembleError.fault], fun _ => ⟨cause, hparse, rfl⟩, fun _ => rfl⟩
    · have hfault := build_fault hparse hbuild
      refine ⟨List.mem_cons_of_mem _ hfault, ?_, ?_⟩
      · intro hmalformed
        rw [show cause.fault = .malformed from hmalformed] at hfault
        simp at hfault
      · rintro ⟨_, -, hparse'⟩
        cases hparse'
  operands := by
    intro nodes hparse line labels name o hnode
    obtain ⟨hform, hvalue⟩ := parse_operand hparse hnode
    refine ⟨hform, ?_⟩
    intro digits hdigits
    rw [hdigits] at hvalue
    exact hvalue.exists_readHex?
  expressions := by
    intro nodes hparse node hnode line cause hcause
    have hwide := operand_fault hparse hnode hcause
    refine ⟨hwide, ?_, ?_⟩
    · rintro text rfl
      cases hwide
    · rintro form rfl
      cases hwide
  emits := by
    intro p hp e he
    obtain ⟨nodes, -, hbuild⟩ := assemble_eq_ok hp
    obtain ⟨⟨cause, rfl⟩, hfault⟩ := Program.rawBytes_fault (build_wellFormed hbuild) he
    exact ⟨hfault, fun _ _ _ => EmitError.noConfusion⟩
  links := by
    intro p hp e he
    obtain ⟨nodes, -, hbuild⟩ := assemble_eq_ok hp
    have hwf := build_wellFormed hbuild
    rcases Program.link_fault hwf he with ⟨cause, rfl, hraw⟩ | ⟨length, rfl⟩ | ⟨cause, rfl, hfault⟩
    · refine ⟨?_, fun _ _ => LinkError.noConfusion, fun _ => LinkError.noConfusion⟩
      show cause.fault ∈ _
      rcases (Program.rawBytes_fault hwf hraw).2 with hfault | hfault <;> simp [hfault]
    · exact ⟨by simp [LinkError.fault], fun _ _ => LinkError.noConfusion,
        fun _ => LinkError.noConfusion⟩
    · exact ⟨hfault, fun _ _ => LinkError.noConfusion, fun _ => LinkError.noConfusion⟩
  stores := by
    intro p raw hp hraw r hr
    obtain ⟨nodes, -, hbuild⟩ := assemble_eq_ok hp
    exact Program.slot_le_length (build_wellFormed hbuild) hraw hr

/-- A program that is assembled, emitted and refused by the linker for a
symbol that no one defines. -/
theorem assemble_link_faults_undefined :
    ∃ p e, assemble (ascii "LDA #port") = .ok p ∧ p.link 0x0600 [] = .error e ∧
      e.fault = .undefinedSymbol ∧
      e.fault ∈ [.undefinedSymbol, .branchOutOfRange, .valueOutOfRange] ∧
      (∀ r length, e ≠ .outside r length) ∧ ∀ number, e ≠ .unknownKind number := by
  have hp : assemble (ascii "LDA #port") =
      .ok ⟨#[⟨0, .lda, .immediate, .label (ascii "port"), 1⟩], #[], 2⟩ := by
    decide +kernel
  have he : Program.link ⟨#[⟨0, .lda, .immediate, .label (ascii "port"), 1⟩], #[], 2⟩ 0x0600 [] =
      .error (.symbol (undefinedSymbol ⟨ascii "port", 1, .short⟩)) := by
    decide +kernel
  exact ⟨_, _, hp, he, rfl, (assemble_link_faults (ascii "LDA #port") 0x0600 []).links _ hp _ he⟩

end Mos6502
