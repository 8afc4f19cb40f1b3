/-
Mos6502/Proofs/RoundTrip.lean

From image to text and back.  A plain disassembly without data lines is source
text again, and assembling and linking it at the same origin gives the image,
provided that the text is complete: every label it uses is one it declares, and
every branch in it stays inside the image.  All three conditions can be read off
from the text and the branches in it:

* a data line starts with its directive;
* `declaredLabels` and `usedLabels` of a text are those of its readable lines;
* a branch leads from the byte after it as far as its displacement says,
  without wrapping around.

`disassemble_assemble_link` needs the first two of them to know which program
the text is, and the last to know that its branches can be written as labels.
-/
import Mos6502.Proofs.Reassembly

namespace Mos6502

/-! ### Labels of a text -/

/-- The nodes of the lines of a text that can be read. -/
def readableNodes (source : Bytes) : List Node :=
  (lines source).filterMap fun line => (parseLine 0 line).toOption.join

/-- The label that an instruction has as its operand. -/
def Node.operandLabel? (node : Node) : Option Bytes :=
  match Expression.ofNode node with
  | .ok ⟨_, _, .label name, _⟩ => some name
  | _ => none

/-- The labels that a text declares. -/
def declaredLabels (source : Bytes) : List Bytes :=
  (readableNodes source).flatMap Node.labels

/-- The labels that a text uses as operands. -/
def usedLabels (source : Bytes) : List Bytes :=
  (readableNodes source).filterMap Node.operandLabel?

theorem mem_readableNodes {source : Bytes} {node : Node} :
    node ∈ readableNodes source ↔
      ∃ line ∈ lines source, parseLine 0 line = .ok (some node) := by
  have hjoin : ∀ line, (parseLine 0 line).toOption.join = some node ↔
      parseLine 0 line = .ok (some node) := by
    intro line
    rcases parseLine 0 line with e | - | node' <;> simp [Except.toOption]
  simp only [readableNodes, List.mem_filterMap, hjoin]

/-! ### Texts of images -/

namespace Analysis

variable {a : Analysis} {code : Bytes}

/-- The plain text of an image: its lines, each with a line feed. -/
def plainText (a : Analysis) (code : Bytes) : Bytes :=
  (a.lines code).flatMap fun line => line.plainText a.labelAt? ++ [0x0A]

theorem lines_plainText (hid : a.Readable) (hdec : a.Decodes code) :
    Mos6502.lines (a.plainText code) = (a.lines code).map (Line.plainText a.labelAt?) ++ [[]] :=
  lines_joined fun _ hline => hid.lineFeed_not_mem_plainText hdec hline

/-- A text without a data directive has no data line. -/
theorem not_data_of_plainText (hsym : a.symbols.Legible) (hdec : a.Decodes code)
    (hbyte : ∀ line ∈ Mos6502.lines (a.plainText code), ¬ ascii "    .byte " <+: line) :
    ∀ line ∈ a.lines code, ∀ x bytes, line ≠ .data x bytes := by
  rintro line hline x bytes rfl
  refine hbyte _ ?_ (Line.plainText_data a.labelAt? x bytes).1
  rw [lines_plainText hsym.readable hdec]
  exact List.mem_append_left _ (List.mem_map_of_mem hline)

section Readable

variable (hsym : a.symbols.Legible) (hdec : a.Decodes code)
  (hdata : ∀ line ∈ a.lines code, ∀ x bytes, line ≠ .data x bytes)

include hsym hdec hdata

theorem mem_usedLabels {i : Instruction} {name : Bytes} (hline : Line.code i ∈ a.lines code)
    (hname : i.sourceValue a.labelAt? = .label name) : name ∈ usedLabels (a.plainText code) := by
  obtain ⟨node, hparse, hreads⟩ := exists_reads hsym hdec hline (hdata _ hline) 0
  refine List.mem_filterMap.mpr ⟨node, mem_readableNodes.mpr ⟨_, ?_, hparse⟩, ?_⟩
  · rw [lines_plainText hsym.readable hdec]
    exact List.mem_append_left _ (List.mem_map_of_mem hline)
  · cases hreads with
    | code hnode => simp only [Node.operandLabel?, hnode, hname]

theorem label_of_mem_declaredLabels {name : Bytes}
    (hname : name ∈ declaredLabels (a.plainText code)) : Line.label name ∈ a.lines code := by
  obtain ⟨node, hnode, hmem⟩ := List.mem_flatMap.mp hname
  obtain ⟨text, htext, hparse⟩ := mem_readableNodes.mp hnode
  rw [lines_plainText hsym.readable hdec, List.mem_append, List.mem_singleton] at htext
  rcases htext with htext | rfl
  · obtain ⟨line, hline, rfl⟩ := List.mem_map.mp htext
    obtain ⟨node', hparse', hreads⟩ := exists_reads hsym hdec hline (hdata _ hline) 0
    rw [hparse] at hparse'
    cases hparse'
    cases hreads with
    | label =>
      rw [List.mem_singleton.mp hmem]
      exact hline
    | code => cases hmem
  · -- the empty line after the last line feed
    rw [parseLine_empty] at hparse
    cases hparse

end Readable

/-- A branch whose destination lies inside the image is written with a
label. -/
theorem sourceValue_ne_target {origin : UInt16} {symbols : SymbolMap} {o : Nat} {i : Instruction}
    (hfit : origin.toNat + code.length ≤ addressSpace)
    (hcode : (ofImage origin symbols code).codeAt? o = some i)
    (hinside : i.mode = .relative →
      (origin.toNat : Int) ≤ i.address.toNat + 2 + signedByte (Word.lo i.operand) ∧
        (i.address.toNat : Int) + 2 + signedByte (Word.lo i.operand) <
          origin.toNat + code.length) (t : UInt16) :
    i.sourceValue (ofImage origin symbols code).labelAt? ≠ .target t := by
  intro htarget
  rcases Instruction.sourceValue_cases (ofImage origin symbols code).labelAt? i with
    ⟨_, _, -, -, hv⟩ | ⟨t', ht', hnone, hmode, -⟩ | ⟨-, hv⟩ | ⟨-, hv⟩
  case inr.inl =>
    have hlen : i.bytes.length = 2 := by
      rw [Instruction.length_bytes_of_fetch? (decodes_ofImage origin symbols code o i hcode), hmode]
      rfl
    obtain ⟨hlow, hhigh⟩ := hinside hmode
    have hnat : (t'.toNat : Int) = i.address.toNat + 2 + signedByte (Word.lo i.operand) := by
      have hword := ht'
      rw [Instruction.target?_relative hmode, hlen] at hword
      cases hword
      rw [addressSpace] at hfit
      exact toNat_wordOfInt (by omega) (by omega)
    -- a destination inside the image has a label
    obtain ⟨name, hname⟩ := exists_labelAt? hcode ht' (by omega) (by omega)
    rw [hnone] at hname
    cases hname
  all_goals
    rw [hv] at htarget
    cases htarget

end Analysis

theorem disassemble_plain {code : Bytes} (hne : code ≠ []) {origin : UInt16}
    (hfit : origin.toNat + code.length ≤ addressSpace) (symbols : SymbolMap) :
    disassemble code ⟨origin, symbols, false⟩ =
      .ok ((Analysis.ofImage origin symbols code).plainText code) :=
  disassemble_of_ne_nil hne hfit symbols false

/-- **A complete disassembly assembles and links to its image.**  Every
non-empty image that fits at its origin has a text; if this has no data line,
declares every label that it uses and has no branch out of the image, it is
source text, and linked at the same origin it is the image again. -/
theorem disassemble_assemble_link {code : Bytes} (hne : code ≠ []) {origin : UInt16}
    (hfit : origin.toNat + code.length ≤ addressSpace) {symbols : SymbolMap}
    (hsym : symbols.Legible) :
    ∃ text, disassemble code ⟨origin, symbols, false⟩ = .ok text ∧
      ((∀ line ∈ lines text, ¬ ascii "    .byte " <+: line) →
        (∀ name ∈ usedLabels text, name ∈ declaredLabels text) →
        (∀ i, Line.code i ∈ (Analysis.ofImage origin symbols code).lines code →
          i.mode = .relative →
          (origin.toNat : Int) ≤ i.address.toNat + 2 + signedByte (Word.lo i.operand) ∧
            (i.address.toNat : Int) + 2 + signedByte (Word.lo i.operand) <
              origin.toNat + code.length) →
        ∃ p, assemble text = .ok p ∧ p.link origin [] = .ok code) := by
  refine ⟨_, disassemble_plain hne hfit symbols, ?_⟩
  intro hbyte hused hinside
  have hdec := Analysis.decodes_ofImage origin symbols code
  have hdata := Analysis.not_data_of_plainText (a := .ofImage origin symbols code) hsym hdec hbyte
  obtain ⟨nodes, last, hparse, hnodes⟩ := parse_joined
    (fun line hline =>
      Analysis.lineFeed_not_mem_plainText (a := .ofImage origin symbols code) hsym hdec hline)
    (fun line hline => Analysis.exists_reads hsym hdec hline (hdata line hline))
  have htarget : ∀ i, Line.code i ∈ (Analysis.ofImage origin symbols code).lines code →
      ∀ t, i.sourceValue (Analysis.ofImage origin symbols code).labelAt? ≠ .target t := by
    intro i hline
    rcases Analysis.cases_of_mem_lines hline with ⟨_, _, _, h⟩ | ⟨o, _, hcode, h⟩ | ⟨_, _, h⟩ <;>
      cases h
    exact Analysis.sourceValue_ne_target hfit hcode (hinside i hline)
  obtain ⟨p, hbuild, hsize, hshow⟩ :=
    build_lines (a := .ofImage origin symbols code) hsym hdec (by omega) hdata htarget hnodes last
  have hclosed : (Analysis.ofImage origin symbols code).Closed code
      ((Analysis.ofImage origin symbols code).lines code) := by
    refine ⟨?_, hinside⟩
    intro i hline name hname
    exact Analysis.label_of_mem_declaredLabels hsym hdec hdata
      (hused name (Analysis.mem_usedLabels hsym hdec hdata hline hname))
  refine ⟨p, ?_, ?_⟩
  · rw [assemble, Analysis.plainText, hparse]
    dsimp only
    rw [hbuild]
  · exact hshow.link_eq hsym hdec (build_wellFormed hbuild) hsize hfit hclosed

/-- A loop, a subroutine and a jump to a symbol at the end of the image. -/
theorem disassemble_assemble_link_subroutine :
    ∃ text, disassemble
        [0x20, 0x09, 0x80, 0xCA, 0xD0, 0xFD, 0x4C, 0x0D, 0x80, 0x4A, 0xB1, 0x12, 0x60]
        ⟨0x8000, [(ascii "main", 0x8000), (ascii "done", 0x800D)], false⟩ = .ok text ∧
      text = ascii "main:\n    JSR sub_8009\nL8003:\n    DEX\n    BNE L8003\n    JMP done\n" ++
        ascii "sub_8009:\n    LSR\n    LDA ($12),Y\n    RTS\ndone:\n" ∧
      ∃ p, assemble text = .ok p ∧ p.link 0x8000 [] =
        .ok [0x20, 0x09, 0x80, 0xCA, 0xD0, 0xFD, 0x4C, 0x0D, 0x80, 0x4A, 0xB1, 0x12, 0x60] := by
  have hsym : SymbolMap.Legible [(ascii "main", 0x8000), (ascii "done", 0x800D)] := by
    refine ⟨by decide, by decide, ?_⟩
    intro entry hentry address kind h
    rcases List.mem_cons.mp hentry with rfl | hentry
    · cases kind <;> cases (List.cons.inj h).1
    · cases List.mem_singleton.mp hentry
      cases kind <;> cases (List.cons.inj h).1
  have hall : ((Analysis.ofImage 0x8000 [(ascii "main", 0x8000), (ascii "done", 0x800D)]
      [0x20, 0x09, 0x80, 0xCA, 0xD0, 0xFD, 0x4C, 0x0D, 0x80, 0x4A, 0xB1, 0x12, 0x60]).lines
      [0x20, 0x09, 0x80, 0xCA, 0xD0, 0xFD, 0x4C, 0x0D, 0x80, 0x4A, 0xB1, 0x12, 0x60]).all
      (fun line => match line with
        | .code i => decide (i.mode = .relative →
            ((0x8000 : UInt16).toNat : Int) ≤ i.address.toNat + 2 + signedByte (Word.lo i.operand) ∧
              (i.address.toNat : Int) + 2 + signedByte (Word.lo i.operand) <
                (0x8000 : UInt16).toNat + (13 : Nat))
        | _ => true) = true := by
    decide +kernel
  have htext : disassemble
      [0x20, 0x09, 0x80, 0xCA, 0xD0, 0xFD, 0x4C, 0x0D, 0x80, 0x4A, 0xB1, 0x12, 0x60]
      ⟨0x8000, [(ascii "main", 0x8000), (ascii "done", 0x800D)], false⟩ =
      .ok (ascii "main:\n    JSR sub_8009\nL8003:\n    DEX\n    BNE L8003\n    JMP done\n" ++
        ascii "sub_8009:\n    LSR\n    LDA ($12),Y\n    RTS\ndone:\n") := by
    decide +kernel
  have hne : ([0x20, 0x09, 0x80, 0xCA, 0xD0, 0xFD, 0x4C, 0x0D, 0x80, 0x4A, 0xB1, 0x12, 0x60] :
      Bytes) ≠ [] := by
    decide
  have hfit : (0x8000 : UInt16).toNat + List.length ([0x20, 0x09, 0x80, 0xCA, 0xD0, 0xFD, 0x4C,
      0x0D, 0x80, 0x4A, 0xB1, 0x12, 0x60] : Bytes) ≤ addressSpace := by
    decide
  obtain ⟨text, htext', hlink⟩ := disassemble_assemble_link hne hfit hsym
  rw [htext] at htext'
  cases htext'
  refine ⟨_, htext, rfl, hlink (by decide +kernel) (by decide +kernel) ?_⟩
  intro i hi
  exact of_decide_eq_true (List.all_eq_true.mp hall _ hi)

end Mos6502
