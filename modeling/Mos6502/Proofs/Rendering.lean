/-
Mos6502/Proofs/Rendering.lean

The lines of a disassembly and how they read as source.

`Analysis.Tiles a o rest lines` says that `lines` render `rest`, the image from
offset `o` on: each of them starts where the one before it ends, and a label is
declared in front of the line at its address.  It is the recursion that writes
the lines, without its accumulator (`Analysis.lines_tiles`).

A code line is the source form of an instruction; its operand is a label where
the destination has one, and a literal otherwise (`Instruction.sourceValue`).
So a line without data is read back as what it shows (`Line.Reads`,
`Analysis.Readable.exists_reads`).
-/
import Mos6502.Disassembly.Listing
import Mos6502.Proofs.Labels
import Mos6502.Proofs.SourceForm

namespace Mos6502

/-! ### Lines that tile an image -/

namespace Analysis

/-- Lines that render the image from an offset on. -/
inductive Tiles (a : Analysis) : Nat → Bytes → List Line → Prop
  | done (o : Nat) : Tiles a o [] []
  | code {o : Nat} {rest : Bytes} {i : Instruction} {lines : List Line} :
      rest ≠ [] → a.codeAt? o = some i →
      Tiles a (o + i.mode.size) (rest.drop i.mode.size) lines →
      Tiles a o rest ((a.declaration o).toList ++ .code i :: lines)
  | data {o run : Nat} {b : UInt8} {tail : Bytes} {lines : List Line} :
      a.codeAt? o = none → run = a.dataRun (bytesPerLine - 1) (o + 1) tail →
      Tiles a (o + (run + 1)) (tail.drop run) lines →
      Tiles a o (b :: tail)
        ((a.declaration o).toList ++ .data (a.addressOf o) (b :: tail.take run) :: lines)

theorem linesFrom_tiles (a : Analysis) (o : Nat) (rest : Bytes) (acc : Array Line) :
    ∃ lines, (a.linesFrom o rest acc).toList = acc.toList ++ lines ∧ a.Tiles o rest lines := by
  induction h : rest.length using Nat.strongRecOn generalizing o rest acc with
  | ind n ih =>
    subst h
    rcases rest with - | ⟨b, tail⟩
    · refine ⟨[], ?_, .done o⟩
      rw [linesFrom, List.append_nil]
    · rw [linesFrom]
      dsimp only
      rcases hcode : a.codeAt? o with - | i
      · dsimp only
        obtain ⟨lines, hlines, htiles⟩ := ih _ (by grind) (o + 1 +
          a.dataRun (bytesPerLine - 1) (o + 1) tail)
          (tail.drop (a.dataRun (bytesPerLine - 1) (o + 1) tail))
          ((acc ++ a.declaration o).push (.data (a.addressOf o)
            (b :: tail.take (a.dataRun (bytesPerLine - 1) (o + 1) tail)))) rfl
        rw [Nat.add_assoc, Nat.add_comm 1] at htiles
        refine ⟨_, ?_, .data hcode rfl htiles⟩
        rw [hlines]
        simp
      · dsimp only
        obtain ⟨lines, hlines, htiles⟩ := ih _ (by grind) (o + 1 + i.mode.operandLength)
          (tail.drop i.mode.operandLength) ((acc ++ a.declaration o).push (.code i)) rfl
        rw [Nat.add_assoc, Nat.add_comm 1] at htiles
        refine ⟨_, ?_, .code (List.cons_ne_nil b tail) hcode htiles⟩
        rw [hlines]
        simp

/-- **The lines of an image tile it**, up to the declaration of a symbol at
its end. -/
theorem lines_tiles (a : Analysis) (code : Bytes) :
    ∃ body, a.lines code = body ++ a.endLabel code.length ∧ a.Tiles 0 code body := by
  obtain ⟨body, hbody, htiles⟩ := a.linesFrom_tiles 0 code #[]
  refine ⟨body, ?_, htiles⟩
  rw [lines, hbody]
  rfl

theorem mem_declaration_iff {a : Analysis} {o : Nat} {line : Line} :
    line ∈ (a.declaration o).toList ↔
      ∃ name, a.labelAt? (a.addressOf o) = some name ∧ line = .label name := by
  unfold declaration
  rcases a.labelAt? (a.addressOf o) with - | name <;> simp

/-- What a line of a tiling is. -/
theorem Tiles.cases_of_mem {a : Analysis} {o : Nat} {rest : Bytes} {lines : List Line}
    (h : a.Tiles o rest lines) {line : Line} (hline : line ∈ lines) :
    (∃ x name, a.labelAt? x = some name ∧ line = .label name) ∨
      (∃ o i, a.codeAt? o = some i ∧ line = .code i) ∨ ∃ x bytes, line = .data x bytes := by
  have hdecl : ∀ {o : Nat}, line ∈ (a.declaration o).toList →
      ∃ x name, a.labelAt? x = some name ∧ line = .label name := by
    intro o hmem
    obtain ⟨name, hname, rfl⟩ := mem_declaration_iff.mp hmem
    exact ⟨_, name, hname, rfl⟩
  induction h with
  | done => cases hline
  | @code o rest i lines _ hcode _ ih =>
    rcases List.mem_append.mp hline with hmem | hmem
    · exact .inl (hdecl hmem)
    · rcases List.mem_cons.mp hmem with rfl | hmem
      · exact .inr (.inl ⟨o, i, hcode, rfl⟩)
      · exact ih hmem
  | data _ _ _ ih =>
    rcases List.mem_append.mp hline with hmem | hmem
    · exact .inl (hdecl hmem)
    · rcases List.mem_cons.mp hmem with rfl | hmem
      · exact .inr (.inr ⟨_, _, rfl⟩)
      · exact ih hmem

theorem labelAt?_of_nameAt? {a : Analysis} {x : UInt16} {name : Bytes}
    (h : a.symbols.nameAt? x = some name) : a.labelAt? x = some name := by
  rw [labelAt?, h]

theorem mem_endLabel_iff {a : Analysis} {length : Nat} {line : Line} :
    line ∈ a.endLabel length ↔ a.origin.toNat + length < addressSpace ∧
      ∃ name, a.symbols.nameAt? (a.addressOf length) = some name ∧ line = .label name := by
  unfold endLabel
  split
  · next hlt => simp [hlt, eq_comm]
  · next hlt => simp [hlt]

theorem cases_of_mem_lines {a : Analysis} {code : Bytes} {line : Line}
    (hline : line ∈ a.lines code) :
    (∃ x name, a.labelAt? x = some name ∧ line = .label name) ∨
      (∃ o i, a.codeAt? o = some i ∧ line = .code i) ∨ ∃ x bytes, line = .data x bytes := by
  obtain ⟨body, hlines, htiles⟩ := a.lines_tiles code
  rw [hlines] at hline
  rcases List.mem_append.mp hline with hmem | hmem
  · exact htiles.cases_of_mem hmem
  · obtain ⟨-, name, hname, rfl⟩ := mem_endLabel_iff.mp hmem
    exact .inl ⟨_, name, labelAt?_of_nameAt? hname, rfl⟩

end Analysis

/-! ### Instructions as source -/

namespace Instruction

variable {labelAt? : UInt16 → Option Bytes} {i : Instruction}

/-- The operand value that an instruction is written with. -/
def sourceValue (labelAt? : UInt16 → Option Bytes) (i : Instruction) : Value :=
  match i.target? with
  | some t =>
    match labelAt? t with
    | some name => .label name
    | none => if i.mode = .relative then .target t else .number t
  | none => if i.mode.operandLength = 0 then .none else .number i.operand

/-- Only branches and the absolute `JMP` and `JSR` have a destination. -/
theorem target?_cases {t : UInt16} (h : i.target? = some t) :
    (i.mode = .relative ∧
      t = wordOfInt (i.address.toNat + i.bytes.length + signedByte (Word.lo i.operand))) ∨
    (i.mode = .absolute ∧ (i.mnemonic = .jmp ∨ i.mnemonic = .jsr) ∧ t = i.operand) := by
  unfold target? destination? at h
  split at h
  · next hmode =>
    cases h
    exact .inl ⟨Option.some.inj hmode, rfl⟩
  · next hmode =>
    split at h
    · next hjump =>
      cases h
      refine .inr ⟨Option.some.inj hmode, ?_, rfl⟩
      simpa using hjump
    · cases h
  · cases h

theorem target?_relative (h : i.mode = .relative) :
    i.target? =
      some (wordOfInt (i.address.toNat + i.bytes.length + signedByte (Word.lo i.operand))) := by
  rw [target?, h]
  rfl

/-- What an instruction can be written with: the label of its destination, the
destination of a branch that has no label, nothing, or the operand as it was
read. -/
theorem sourceValue_cases (labelAt? : UInt16 → Option Bytes) (i : Instruction) :
    (∃ t name, i.target? = some t ∧ labelAt? t = some name ∧
      i.sourceValue labelAt? = .label name) ∨
    (∃ t, i.target? = some t ∧ labelAt? t = none ∧ i.mode = .relative ∧
      i.sourceValue labelAt? = .target t) ∨
    (i.mode.operandLength = 0 ∧ i.sourceValue labelAt? = .none) ∨
    (i.mode.operandLength ≠ 0 ∧ i.sourceValue labelAt? = .number i.operand) := by
  unfold sourceValue
  rcases htarget : i.target? with - | t
  · dsimp only
    split
    · next hmode => exact .inr (.inr (.inl ⟨hmode, rfl⟩))
    · next hmode => exact .inr (.inr (.inr ⟨hmode, rfl⟩))
  · dsimp only
    rcases hname : labelAt? t with - | name
    · -- a jump without a label shows its destination, which is its operand
      rcases target?_cases htarget with ⟨hrel, -⟩ | ⟨habs, -, rfl⟩
      · exact .inr (.inl ⟨t, rfl, hname, hrel, if_pos hrel⟩)
      · refine .inr (.inr (.inr ⟨?_, if_neg ?_⟩)) <;> rw [habs] <;> decide
    · exact .inl ⟨t, name, rfl, hname, rfl⟩

theorem sourceValue_eq_label {name : Bytes} (h : i.sourceValue labelAt? = .label name) :
    ∃ t, i.target? = some t ∧ labelAt? t = some name := by
  rcases sourceValue_cases labelAt? i with
    ⟨t, name', ht, hname, hv⟩ | ⟨t, -, -, -, hv⟩ | ⟨-, hv⟩ | ⟨-, hv⟩ <;> rw [hv] at h <;> cases h
  exact ⟨t, ht, hname⟩

/-- The text of an instruction is its source form. -/
theorem text_eq_sourceForm (labelAt? : UInt16 → Option Bytes) (i : Instruction) :
    i.text labelAt? = sourceForm (some i.mnemonic) (some i.mode) (i.sourceValue labelAt?) := by
  have hpad : Text.padRight 4 (ascii i.mnemonic.name) = ascii i.mnemonic.name ++ [0x20] := by
    rw [Text.padRight, (Mnemonic.name_spec _ i.mnemonic.mem_all).1]
    rfl
  have hvalue : i.mode.operandLength ≠ 0 →
      i.valueText labelAt? = (i.sourceValue labelAt?).text i.mode.isLong := by
    intro hmode
    unfold valueText sourceValue
    rcases htarget : i.target? with - | t
    · dsimp only
      rw [if_neg hmode]
      rfl
    · dsimp only
      rcases labelAt? t with - | name
      · rcases target?_cases htarget with ⟨hrel, -⟩ | ⟨habs, -⟩
        · rw [if_pos hrel]
          rfl
        · rw [habs]
          rfl
      · rfl
  unfold text sourceForm
  rw [hpad]
  cases hmode : i.mode <;> rw [hmode] at hvalue
  case accumulator | implied => rfl
  all_goals
    dsimp only
    rw [hvalue (by decide), List.append_assoc]
    rfl

theorem isShift_of_target? {t : UInt16} (hsup : Opcode.supports i.mnemonic i.mode = true)
    (h : i.target? = some t) : i.mnemonic.isShift = false := by
  have hbranch : ∀ m : Mnemonic, m.isBranch = true → m.isShift = false := by
    intro m
    cases m <;> decide
  rcases target?_cases h with ⟨hmode, -⟩ | ⟨-, hjump | hjump, -⟩
  · apply hbranch
    rw [Opcode.isBranch_of_supports hsup, hmode]
    rfl
  · rw [hjump]
    rfl
  · rw [hjump]
    rfl

/-- A decoded instruction can be written, as long as labels are
identifiers. -/
theorem sourceValue_written {address : UInt16} {code : Bytes}
    (hfetch : fetch? address code = some i)
    (hlabel : ∀ t name, labelAt? t = some name → isIdentifier name = true) :
    Opcode.supports i.mnemonic i.mode = true ∧
      (i.sourceValue labelAt?).Written i.mnemonic i.mode := by
  obtain ⟨-, hlt, opcode, hop, -⟩ := fetch?_eq_some_iff.mp hfetch
  have hsup : Opcode.supports i.mnemonic i.mode = true := by
    rw [Opcode.supports, hop]
    rfl
  refine ⟨hsup, ?_⟩
  rcases sourceValue_cases labelAt? i with
    ⟨t, name, htarget, hname, hv⟩ | ⟨t, -, -, hrel, hv⟩ | ⟨hmode, hv⟩ | ⟨hmode, hv⟩ <;> rw [hv]
  · refine .label (hlabel t name hname) ?_ ?_
    · rcases target?_cases htarget with ⟨hmode, -⟩ | ⟨hmode, -⟩ <;> rw [hmode] <;> rfl
    · intro _ hshift
      rw [isShift_of_target? hsup htarget] at hshift
      cases hshift
  · exact .target hrel
  · exact .none hmode
  · exact .number hmode hlt

end Instruction

/-! ### Lines as source -/

/-- A node that says what a line shows. -/
inductive Line.Reads (labelAt? : UInt16 → Option Bytes) : Line → Node → Prop
  | label {name : Bytes} {n : Int} : Line.Reads labelAt? (.label name) (.label n [name])
  | code {i : Instruction} {n : Int} {name : Bytes} {o : Option Operand} :
      Expression.ofNode (.instruction n [] name o) =
        .ok ⟨i.mnemonic, i.mode, i.sourceValue labelAt?, n⟩ →
      Line.Reads labelAt? (.code i) (.instruction n [] name o)

theorem Text.dropTrailingSpaces_of_inked {s : Bytes} (hs : Inked s) : dropTrailingSpaces s = s := by
  have hstop : s.reverse.dropWhile (· == 0x20) = s.reverse := by
    rcases hr : s.reverse with - | ⟨b, rest⟩
    · rfl
    · have hb : Byte.isInk b = true := by
        apply hs.2
        rw [← List.head?_reverse, hr]
        rfl
      apply List.dropWhile_cons_of_neg
      intro hspace
      rw [eq_of_beq hspace] at hb
      cases hb
  rw [dropTrailingSpaces, hstop, List.reverse_reverse]

/-- A code line is an indented source form. -/
theorem Line.plainText_code {labelAt? : UInt16 → Option Bytes} {i : Instruction}
    (hsup : Opcode.supports i.mnemonic i.mode = true)
    (hw : (i.sourceValue labelAt?).Written i.mnemonic i.mode) :
    (Line.code i).plainText labelAt? = List.replicate 4 0x20 ++
      sourceForm (some i.mnemonic) (some i.mode) (i.sourceValue labelAt?) := by
  show ascii "    " ++ Text.dropTrailingSpaces (i.text labelAt?) = _
  rw [i.text_eq_sourceForm, Text.dropTrailingSpaces_of_inked (sourceForm_inked hsup hw).1]
  rfl

theorem Text.mem_joinWith {separator : Bytes} {l : List Bytes} {c : UInt8}
    (h : c ∈ joinWith separator l) : c ∈ separator ∨ ∃ s ∈ l, c ∈ s := by
  rcases l with - | ⟨first, rest⟩
  · cases h
  · rcases List.mem_append.mp h with h | h
    · exact .inr ⟨first, List.mem_cons_self, h⟩
    · obtain ⟨s, hs, h⟩ := List.mem_flatMap.mp h
      rcases List.mem_append.mp h with h | h
      · exact .inl h
      · exact .inr ⟨s, List.mem_cons_of_mem _ hs, h⟩

theorem Text.inked_joinWith {separator : Bytes} {l : List Bytes}
    (hl : ∀ s ∈ l, s ≠ [] ∧ Inked s) : Inked (joinWith separator l) := by
  induction l with
  | nil => exact inked_of_forall (by simp [joinWith])
  | cons first rest ih =>
    obtain ⟨hne, hfirst⟩ := hl first (by simp)
    rcases rest with - | ⟨second, rest⟩
    · simpa [joinWith] using hfirst
    · have hstep : joinWith separator (first :: second :: rest) =
          first ++ (separator ++ joinWith separator (second :: rest)) := by
        simp [joinWith]
      have hsecond : second ≠ [] := (hl second (by simp)).1
      rw [hstep]
      apply hfirst.append (ih fun s hs => hl s (List.mem_cons_of_mem _ hs)) hne
      simp [joinWith, hsecond]

theorem Numeral.isHexDigit_of_mem_byte {b c : UInt8} (h : c ∈ byte b) : Byte.isHexDigit c = true :=
  forall_mem_hexPadded (P := fun c => Byte.isHexDigit c = true) isHexDigit_upperDigit 2 b.toNat c h

theorem Numeral.byte_inked (b : UInt8) : byte b ≠ [] ∧ Text.Inked (byte b) := by
  refine ⟨?_, Text.inked_of_forall fun c hc => ?_⟩
  · rw [← List.length_pos_iff, length_byte]
    decide
  · exact Byte.isInk_of_isPlain (Byte.isPlain_of_isHexDigit (isHexDigit_of_mem_byte hc))

/-- The operands of a data line are plain. -/
theorem isPlain_of_mem_literals {bytes : Bytes} {c : UInt8}
    (hc : c ∈ Text.joinWith [0x2C] (bytes.map fun b => 0x24 :: Numeral.byte b)) :
    Byte.isPlain c = true := by
  rcases Text.mem_joinWith hc with hc | ⟨s, hs, hc⟩
  · rw [List.mem_singleton.mp hc]
    rfl
  · obtain ⟨b, -, rfl⟩ := List.mem_map.mp hs
    rcases List.mem_cons.mp hc with rfl | hc
    · rfl
    · exact Byte.isPlain_of_isHexDigit (Numeral.isHexDigit_of_mem_byte hc)

/-- A data line starts with its directive, and holds plain bytes and spaces
only. -/
theorem Line.plainText_data (labelAt? : UInt16 → Option Bytes) (x : UInt16) (bytes : Bytes) :
    ascii "    .byte " <+: (Line.data x bytes).plainText labelAt? ∧
      ∀ c ∈ (Line.data x bytes).plainText labelAt?, c = 0x20 ∨ Byte.isPlain c = true := by
  refine ⟨List.prefix_append _ _, ?_⟩
  have hdirective : ∀ c ∈ ascii "    .byte ", c = 0x20 ∨ Byte.isPlain c = true := by
    decide +kernel
  intro c hc
  rcases List.mem_append.mp hc with hc | hc
  · exact hdirective c hc
  · exact .inr (isPlain_of_mem_literals hc)

namespace Analysis

variable {a : Analysis} {code : Bytes} {line : Line}

/-- No line of a disassembly holds a line feed. -/
theorem Readable.lineFeed_not_mem_plainText (hid : a.Readable) (hdec : a.Decodes code)
    (hline : line ∈ a.lines code) : 0x0A ∉ line.plainText a.labelAt? := by
  rcases cases_of_mem_lines hline with ⟨x, name, hname, rfl⟩ | ⟨o, i, hcode, rfl⟩ | ⟨x, bytes, rfl⟩
  · intro hmem
    rcases List.mem_append.mp hmem with hmem | hmem
    · cases isPlain_of_mem_identifier (hid x name hname) hmem
    · cases List.mem_singleton.mp hmem
  · obtain ⟨hsup, hw⟩ := Instruction.sourceValue_written (hdec o i hcode) hid
    rw [Line.plainText_code hsup hw]
    intro hmem
    rcases List.mem_append.mp hmem with hmem | hmem
    · cases List.eq_of_mem_replicate hmem
    · rcases (sourceForm_inked hsup hw).2 _ hmem with hspace | hplain
      · cases hspace
      · cases hplain
  · intro hmem
    rcases (Line.plainText_data _ x bytes).2 _ hmem with hspace | hplain
    · cases hspace
    · cases hplain

/-- **Every line of a disassembly that is no data is read back as what it
shows.** -/
theorem Readable.exists_reads (hid : a.Readable) (hdec : a.Decodes code)
    (hline : line ∈ a.lines code) (hdata : ∀ x bytes, line ≠ .data x bytes) (number : Nat) :
    ∃ node, parseLine number (line.plainText a.labelAt?) = .ok (some node) ∧
      line.Reads a.labelAt? node := by
  rcases cases_of_mem_lines hline with ⟨x, name, hname, rfl⟩ | ⟨o, i, hcode, rfl⟩ | ⟨x, bytes, rfl⟩
  · exact ⟨_, parseLine_label (hid x name hname) number, .label⟩
  · obtain ⟨hsup, hw⟩ := Instruction.sourceValue_written (hdec o i hcode) hid
    obtain ⟨operand, hparse, hnode⟩ := parseLine_sourceForm hsup hw number 4
    rw [← Line.plainText_code hsup hw] at hparse
    exact ⟨_, hparse, .code hnode⟩
  · exact absurd rfl (hdata x bytes)

theorem lineFeed_not_mem_plainText (hsym : a.symbols.Legible) (hdec : a.Decodes code)
    (hline : line ∈ a.lines code) : 0x0A ∉ line.plainText a.labelAt? :=
  hsym.readable.lineFeed_not_mem_plainText hdec hline

theorem exists_reads (hsym : a.symbols.Legible) (hdec : a.Decodes code)
    (hline : line ∈ a.lines code) (hdata : ∀ x bytes, line ≠ .data x bytes) (number : Nat) :
    ∃ node, parseLine number (line.plainText a.labelAt?) = .ok (some node) ∧
      line.Reads a.labelAt? node :=
  hsym.readable.exists_reads hdec hline hdata number

end Analysis

/-! ### Texts -/

/-- The text of an image is that of its lines, one after the other. -/
theorem disassemble_of_ne_nil {code : Bytes} (hne : code ≠ []) {origin : UInt16}
    (hfit : origin.toNat + code.length ≤ addressSpace) (symbols : SymbolMap) (listing : Bool) :
    disassemble code ⟨origin, symbols, listing⟩ =
      .ok (((Analysis.ofImage origin symbols code).lines code).flatMap
        (Line.text listing (Analysis.ofImage origin symbols code).labelAt?)) := by
  have hempty : code.isEmpty = false := by simpa using hne
  rw [disassemble, hempty, if_neg Bool.false_ne_true, if_neg (by dsimp only; omega)]

/-- The lines that are printed.  An empty image has none, whatever symbol lies
at its end. -/
def Analysis.printed (a : Analysis) (code : Bytes) : List Line :=
  if code = [] then [] else a.lines code

theorem Analysis.mem_printed_iff {a : Analysis} {code : Bytes} {line : Line} :
    line ∈ a.printed code ↔ code ≠ [] ∧ line ∈ a.lines code := by
  unfold printed
  split
  · next hnil => simp [hnil]
  · next hne => simp [hne]

/-- **Every image that fits at its origin has a text.** -/
theorem disassemble_eq_printed {code : Bytes} {origin : UInt16}
    (hfit : origin.toNat + code.length ≤ addressSpace) (symbols : SymbolMap) (listing : Bool) :
    disassemble code ⟨origin, symbols, listing⟩ =
      .ok (((Analysis.ofImage origin symbols code).printed code).flatMap
        (Line.text listing (Analysis.ofImage origin symbols code).labelAt?)) := by
  by_cases hne : code = []
  · rw [hne]
    rfl
  · rw [disassemble_of_ne_nil hne hfit, Analysis.printed, if_neg hne]

end Mos6502
