/-
Mos6502/Proofs/Alignment.lean

The disassembly of a linked program is aligned with it.  The disassembler sees
bytes, and an operand byte may well be an opcode; the program has expressions
at their addresses.  Control that starts at expressions stays on expressions:

* code starts at offset zero and at labels, which stand in front of expressions
  (a label at the end of the section is outside the image, also where its
  address wraps around);
* the next instruction is the next expression;
* a destination inside the image is an expression, which is what has to be
  asked of the program.

So what the disassembler reaches is what can be reached along the program
(`Program.Reached`, `Program.Linked.codeAt?_iff`).  Since expressions do not
overlap, nothing hides a reached one, and what is not reached is data
(`build_link_aligned`).
-/
import Mos6502.Proofs.Listing
import Mos6502.Proofs.Placement
import Mos6502.Proofs.Reachability

namespace Mos6502

/-! ### Control along a program -/

namespace Program

/-- Where an expression may send control in an image linked at an origin, other
than to the next expression. -/
inductive LinkedTarget (p : Program) (origin : UInt16) (externs : SymbolMap) (i : Placed) :
    UInt16 → Prop
  /-- A branch leads from the byte after it as far as its displacement says,
  modulo the address space. -/
  | branch {value t : UInt16} : i.expression.mode = .relative →
      LinkedOperand p origin externs i value →
      (t.toNat : Int) =
        ((origin.toNat : Int) + i.address + 2 + signedByte (Word.lo value)) % 0x10000 →
      LinkedTarget p origin externs i t
  /-- An absolute `JMP` or `JSR` leads to its operand. -/
  | jump {t : UInt16} : i.expression.mode = .absolute →
      (i.expression.mnemonic = .jmp ∨ i.expression.mnemonic = .jsr) →
      LinkedOperand p origin externs i t → LinkedTarget p origin externs i t

/-- The offsets where control may go from an expression: to the end of it, unless
it is terminal, and to its destination inside the section. -/
def GoesTo (p : Program) (origin : UInt16) (externs : SymbolMap) (i : Placed) (o : Nat) : Prop :=
  (i.expression.mnemonic.isTerminal = false ∧ o = i.address + i.expression.size) ∨
    ∃ t, p.LinkedTarget origin externs i t ∧ t.toNat = origin.toNat + o ∧ o < p.size

/-- The expressions that control reaches in an image linked at an origin. -/
inductive Reached (p : Program) (origin : UInt16) (externs : SymbolMap) : Placed → Prop
  /-- The first expression. -/
  | first {i : Placed} : p.code[0]? = some i → Reached p origin externs i
  /-- An expression with a label in front of it. -/
  | labelled {s : Symbol} {k : Nat} {i : Placed} : s ∈ p.symbols.toList → s.index = some k →
      p.code[k]? = some i → Reached p origin externs i
  /-- The expression after one that does not end the flow of control. -/
  | next {k : Nat} {i j : Placed} : Reached p origin externs i →
      i.expression.mnemonic.isTerminal = false → p.code[k]? = some i → p.code[k + 1]? = some j →
      Reached p origin externs j
  /-- The destination of a branch, `JMP` or `JSR`. -/
  | jump {i j : Placed} {t : UInt16} : Reached p origin externs i →
      p.LinkedTarget origin externs i t → j ∈ p.code.toList →
      t.toNat = origin.toNat + j.address → Reached p origin externs j

/-- A program whose jumps and branches hit expressions wherever they hit the
section at all. -/
def Lands (p : Program) (origin : UInt16) (externs : SymbolMap) : Prop :=
  ∀ i ∈ p.code.toList, ∀ t, p.LinkedTarget origin externs i t → origin.toNat ≤ t.toNat →
    t.toNat < origin.toNat + p.size → ∃ j ∈ p.code.toList, t.toNat = origin.toNat + j.address

/-- What the disassembler knows of an image with the labels of its program. -/
def analysis (p : Program) (origin : UInt16) (image : Bytes) : Analysis :=
  .ofImage origin (p.symbolMap.relocate origin) image

/-- The offsets that the disassembler reaches in an image. -/
def ReachedOffset (p : Program) (origin : UInt16) (image : Bytes) (o : Nat) : Prop :=
  Reachable origin (sweep origin image) (entries origin p.size (p.symbolMap.relocate origin)) o

/-- The names that the disassembler is given are the labels. -/
theorem name_mem_labels (p : Program) {origin : UInt16} {entry : Bytes × UInt16}
    (h : entry ∈ p.symbolMap.relocate origin) : entry.1 ∈ p.labels := by
  simp only [SymbolMap.relocate, symbolMap, List.map_map, List.mem_map, Function.comp] at h
  obtain ⟨s, hs, rfl⟩ := h
  exact List.mem_map_of_mem hs

theorem Reached.mem {p : Program} {origin : UInt16} {externs : SymbolMap} {i : Placed}
    (h : p.Reached origin externs i) : i ∈ p.code.toList := by
  cases h with
  | first hk => exact mem_code hk
  | labelled _ _ hk => exact mem_code hk
  | next _ _ _ hk => exact mem_code hk
  | jump _ _ hj _ => exact hj

end Program

namespace Program.Linked

variable {p : Program} {origin : UInt16} {externs : SymbolMap} {image : Bytes} {i j : Placed}
  {inst : Instruction} {o : Nat}

/-- At the address of an expression the sweep holds what it has become. -/
theorem exists_at? (h : p.Linked origin externs image) (hi : i ∈ p.code.toList) :
    ∃ inst, (sweep origin image).at? i.address = some inst ∧ DecodesTo p origin externs i inst := by
  obtain ⟨inst, hfetch, hdec⟩ := h.decodes i hi
  refine ⟨inst, ?_, hdec⟩
  rw [sweep_at?]
  exact hfetch

theorem decodesTo (h : p.Linked origin externs image) (hi : i ∈ p.code.toList)
    (hat : (sweep origin image).at? i.address = some inst) : DecodesTo p origin externs i inst := by
  obtain ⟨inst', hat', hdec⟩ := h.exists_at? hi
  rw [hat] at hat'
  cases hat'
  exact hdec

theorem size_sweep (h : p.Linked origin externs image) : (sweep origin image).size = p.size := by
  rw [Mos6502.size_sweep, h.length]

/-! ### One step -/

/-- **Code starts at the first expression and at labels.** -/
theorem mem_entries_iff (h : p.Linked origin externs image) :
    o ∈ entries origin p.size (p.symbolMap.relocate origin) ↔
      o = 0 ∨ ∃ s ∈ p.symbols.toList, s.address = o ∧ o < p.size := by
  have hsymbol : ∀ s ∈ p.symbols.toList,
      (offsetOf? origin p.size (origin + s.address.toUInt16) = some o ↔
        s.address = o ∧ o < p.size) := by
    intro s hs
    have hle := h.wellFormed.symbol_le s hs
    have hlt := h.wellFormed.symbol_lt s hs
    have hfits := h.fits
    rw [offsetOf?_eq_some_iff, toNat_origin_add]
    -- only the end of the section can wrap, and then not into the image
    rw [addressSpace] at *
    omega
  simp only [entries, SymbolMap.relocate, symbolMap, List.mem_cons, List.mem_filterMap,
    List.map_map, List.mem_map, Function.comp]
  constructor
  · rintro (rfl | ⟨_, ⟨s, hs, rfl⟩, ho⟩)
    · exact .inl rfl
    · exact .inr ⟨s, hs, (hsymbol s hs).mp ho⟩
  · rintro (rfl | ⟨s, hs, ho⟩)
    · exact .inl rfl
    · exact .inr ⟨_, ⟨s, hs, rfl⟩, (hsymbol s hs).mpr ho⟩

/-- The destination that the disassembler reads off an instruction is that of its
expression. -/
theorem target?_iff (h : p.Linked origin externs image) (hi : i ∈ p.code.toList)
    (hat : (sweep origin image).at? i.address = some inst) {t : UInt16} :
    inst.target? = some t ↔ p.LinkedTarget origin externs i t := by
  have hdec := h.decodesTo hi hat
  have haddr := hdec.address
  have hlen : inst.mode = .relative → inst.bytes.length = 2 := by
    intro hmode
    rw [sweep_at?] at hat
    rw [Instruction.length_bytes_of_fetch? hat, hmode]
    rfl
  constructor
  · intro ht
    rcases Instruction.target?_cases ht with ⟨hmode, rfl⟩ | ⟨hmode, hjump, rfl⟩
    · refine .branch (hdec.mode.symm.trans hmode) hdec.operand ?_
      rw [toNat_wordOfInt_emod, hlen hmode, haddr]
      rfl
    · rw [hdec.mnemonic] at hjump
      exact .jump (hdec.mode.symm.trans hmode) hjump hdec.operand
  · intro ht
    cases ht with
    | branch hmode hvalue ht =>
      rw [← hdec.mode] at hmode
      rw [← hdec.operand.unique hvalue] at ht
      rw [Instruction.target?_relative hmode, Option.some.injEq, ← UInt16.toNat_inj,
        ← Int.natCast_inj, ht, toNat_wordOfInt_emod, hlen hmode, haddr]
      rfl
    | jump hmode hjump hvalue =>
      rw [Instruction.target?, hdec.mnemonic, hdec.mode, hmode, hdec.operand.unique hvalue]
      rcases hjump with hjump | hjump <;> rw [hjump] <;> rfl

/-- **Control goes on along the program.** -/
theorem mem_successors_iff (h : p.Linked origin externs image)
    (hi : i ∈ p.code.toList) (hat : (sweep origin image).at? i.address = some inst) :
    o ∈ successors origin p.size i.address inst ↔ p.GoesTo origin externs i o := by
  have hdec := h.decodesTo hi hat
  have hlen : inst.bytes.length = i.expression.size := by
    rw [sweep_at?] at hat
    rw [Instruction.length_bytes_of_fetch? hat, hdec.mode]
    rfl
  have hjump : o ∈ (inst.targetOffset? origin p.size).toList ↔
      ∃ t, p.LinkedTarget origin externs i t ∧ t.toNat = origin.toNat + o ∧ o < p.size := by
    simp only [Option.mem_toList, Instruction.targetOffset?, Option.bind_eq_some_iff,
      h.target?_iff hi hat, offsetOf?_eq_some_iff]
  rw [successors, List.mem_append, hjump, hdec.mnemonic, hlen, GoesTo]
  rcases i.expression.mnemonic.isTerminal <;> simp

/-! ### Whole runs -/

theorem lt_size_of_mem (h : p.Linked origin externs image) (hi : i ∈ p.code.toList) :
    i.address < p.size := by
  have hend := (h.wellFormed.laidOut.bounds hi).2
  have hsize : 0 < i.expression.size := Nat.succ_pos _
  omega

/-- Every offset that the disassembler reaches is that of an expression that
control reaches along the program. -/
theorem exists_reached (h : p.Linked origin externs image) (hland : p.Lands origin externs)
    (hreach : p.ReachedOffset origin image o) :
    ∃ i, p.Reached origin externs i ∧ i.address = o := by
  have hlt : ∀ {x inst}, (sweep origin image).at? x = some inst → x < p.size := by
    intro x inst hat
    rw [← h.size_sweep]
    exact Sweep.lt_size_of_at? hat
  induction hreach with
  | @start o inst hstart hat =>
    rcases h.mem_entries_iff.mp hstart with rfl | ⟨s, hs, rfl, ho⟩
    · have hhead := h.wellFormed.laidOut.address_head
      rw [Array.getElem?_toList] at hhead
      rcases hk : p.code[0]? with - | i
      · -- an empty program has an empty image
        rw [hk] at hhead
        exact absurd (hlt hat) (by simpa using Nat.le_of_eq hhead)
      · rw [hk] at hhead
        exact ⟨i, .first hk, hhead⟩
    · rcases h.inFront s hs with ⟨k, i, hindex, hk, haddr⟩ | ⟨-, hend⟩
      · exact ⟨i, .labelled hs hindex hk, haddr⟩
      · omega
  | @step o o' inst inst' _ hat hnext hat' ih =>
    obtain ⟨i, hi, rfl⟩ := ih
    rw [h.size_sweep] at hnext
    rcases (h.mem_successors_iff hi.mem hat).mp hnext with ⟨hterm, ho⟩ | ⟨t, ht, htn, ho⟩
    · obtain ⟨k, hk⟩ := List.mem_iff_getElem?.mp hi.mem
      have hend := h.wellFormed.laidOut.address_next hk
      rw [Array.getElem?_toList] at hk hend
      rcases hk' : p.code[k + 1]? with - | j
      · -- after the last expression the image is over
        rw [hk'] at hend
        have hlt' := hlt hat'
        exact absurd hlt' (by simpa [ho] using Nat.le_of_eq hend)
      · rw [hk'] at hend
        exact ⟨j, .next hi hterm hk hk', hend.trans ho.symm⟩
    · obtain ⟨j, hj, htj⟩ := hland i hi.mem t ht (by omega) (by omega)
      exact ⟨j, .jump hi ht hj htj, by omega⟩

/-- Every expression that control reaches along the program is reached by the
disassembler. -/
theorem reachable_of_reached (h : p.Linked origin externs image)
    (hreach : p.Reached origin externs i) : p.ReachedOffset origin image i.address := by
  -- an offset where code starts or control goes holds an instruction, being an expression's
  have hstart : ∀ {i}, i ∈ p.code.toList →
      i.address ∈ entries origin p.size (p.symbolMap.relocate origin) →
      p.ReachedOffset origin image i.address := by
    intro i hi hentry
    obtain ⟨inst, hat, -⟩ := h.exists_at? hi
    exact .start hentry hat
  have hstep : ∀ {i j}, i ∈ p.code.toList → j ∈ p.code.toList →
      p.GoesTo origin externs i j.address → p.ReachedOffset origin image i.address →
      p.ReachedOffset origin image j.address := by
    intro i j hi hj hnext hreach
    obtain ⟨inst, hat, -⟩ := h.exists_at? hi
    obtain ⟨inst', hat', -⟩ := h.exists_at? hj
    refine .step hreach hat ?_ hat'
    rw [h.size_sweep]
    exact (h.mem_successors_iff hi hat).mpr hnext
  induction hreach with
  | first hk =>
    apply hstart (mem_code hk)
    have hhead := h.wellFormed.laidOut.address_head
    rw [Array.getElem?_toList, hk] at hhead
    exact h.mem_entries_iff.mpr (.inl hhead)
  | labelled hs hindex hk =>
    apply hstart (mem_code hk)
    apply h.mem_entries_iff.mpr
    refine .inr ⟨_, hs, ?_, h.lt_size_of_mem (mem_code hk)⟩
    rcases h.inFront _ hs with ⟨k, i, hindex', hk', haddr⟩ | ⟨hnone, -⟩
    · cases hindex.symm.trans hindex'
      cases hk.symm.trans hk'
      exact haddr.symm
    · cases hindex.symm.trans hnone
  | next hi hterm hk hk' ih =>
    refine hstep hi.mem (mem_code hk') (.inl ⟨hterm, ?_⟩) ih
    rw [← Array.getElem?_toList] at hk hk'
    have hend := h.wellFormed.laidOut.address_next hk
    rw [hk'] at hend
    exact hend
  | jump hi ht hj htj ih => exact hstep hi.mem hj (.inr ⟨_, ht, htj, h.lt_size_of_mem hj⟩) ih

/-! ### The lines -/

/-- **What the disassembler takes for code are the expressions that control
reaches.** -/
theorem codeAt?_iff (h : p.Linked origin externs image) (hland : p.Lands origin externs) :
    (p.analysis origin image).codeAt? o = some inst ↔
      ∃ i, p.Reached origin externs i ∧ i.address = o ∧ (sweep origin image).at? o = some inst := by
  rw [analysis, Analysis.codeAt?_ofImage_iff, h.size_sweep]
  constructor
  · rintro ⟨hreach, hat⟩
    obtain ⟨i, hi, haddr⟩ := h.exists_reached hland hreach
    exact ⟨i, hi, haddr, hat⟩
  · rintro ⟨i, hi, rfl, hat⟩
    exact ⟨h.reachable_of_reached hi, hat⟩

/-- Expressions that share a byte are the same. -/
theorem eq_of_overlap (h : p.Linked origin externs image) (hi : i ∈ p.code.toList)
    (hj : j ∈ p.code.toList) {x : Nat} (hix : i.address ≤ x ∧ x < i.address + i.expression.size)
    (hjx : j.address ≤ x ∧ x < j.address + j.expression.size) : i = j := by
  rcases h.wellFormed.laidOut.eq_or_disjoint hi hj with heq | hdisj | hdisj
  · exact heq
  · omega
  · omega

/-- A byte of an expression is on a code line, if control reaches the
expression, and then the line shows it; or else on a data line. -/
theorem line_of_byte (h : p.Linked origin externs image) (hland : p.Lands origin externs)
    (hi : i ∈ p.code.toList) {x : Nat}
    (hx : i.address ≤ x ∧ x < i.address + i.expression.size) :
    (p.Reached origin externs i ∧ ∃ inst, Line.code inst ∈ (p.analysis origin image).lines image ∧
      DecodesTo p origin externs i inst) ∨
    ((p.analysis origin image).codeAt? x = none ∧ ∃ s bytes,
      Line.data ((p.analysis origin image).addressOf s) bytes ∈
        (p.analysis origin image).lines image ∧
      s ≤ x ∧ bytes[x - s]? = image[x]?) := by
  have hend := (h.wellFormed.laidOut.bounds hi).2
  have hlt : x < image.length := by
    rw [h.length]
    omega
  rcases (p.analysis origin image).onLine image hlt with
    ⟨hcode, hopens, hlow, hhigh⟩ | ⟨hopens, hlow, -, hbyte, hcode, -⟩
  · rename_i s inst
    obtain ⟨j, hj, rfl, hat⟩ := (h.codeAt?_iff hland).mp hcode
    have hdec := h.decodesTo hj.mem hat
    rw [hdec.mode] at hhigh
    cases h.eq_of_overlap hi hj.mem hx ⟨hlow, hhigh⟩
    exact .inl ⟨hj, inst, hopens.mem, hdec⟩
  · exact .inr ⟨hcode, _, _, hopens.mem, hlow, hbyte⟩

/-- The image of a program is empty only if it has no expressions. -/
theorem printed_eq_lines (h : p.Linked origin externs image) (hi : i ∈ p.code.toList) :
    (p.analysis origin image).printed image = (p.analysis origin image).lines image := by
  apply if_neg
  rintro rfl
  have hlt := h.lt_size_of_mem hi
  rw [← h.length] at hlt
  cases hlt

/-- A code line shows a reached expression. -/
theorem decodesTo_of_code (h : p.Linked origin externs image) (hland : p.Lands origin externs)
    (hline : Line.code inst ∈ (p.analysis origin image).printed image) :
    ∃ i, p.Reached origin externs i ∧ DecodesTo p origin externs i inst := by
  obtain ⟨o, hcode⟩ := Analysis.exists_codeAt?_of_mem (Analysis.mem_printed_iff.mp hline).2
  obtain ⟨i, hi, rfl, hat⟩ := (h.codeAt?_iff hland).mp hcode
  exact ⟨i, hi, h.decodesTo hi.mem hat⟩

/-- **An expression has a code line exactly if control reaches it.** -/
theorem code_iff_reached (h : p.Linked origin externs image) (hland : p.Lands origin externs)
    (hi : i ∈ p.code.toList) :
    (∃ inst, Line.code inst ∈ (p.analysis origin image).printed image ∧
      inst.address.toNat = origin.toNat + i.address) ↔ p.Reached origin externs i := by
  have hsize : 0 < i.expression.size := Nat.succ_pos _
  constructor
  · rintro ⟨inst, hline, haddr⟩
    obtain ⟨j, hj, hdec⟩ := h.decodesTo_of_code hland hline
    have heq := hdec.address
    have hsize' : 0 < j.expression.size := Nat.succ_pos _
    rw [h.eq_of_overlap hi hj.mem (x := i.address) (by omega) (by omega)]
    exact hj
  · intro hreach
    rw [h.printed_eq_lines hi]
    rcases h.line_of_byte hland hi (x := i.address) (by omega) with
      ⟨-, inst, hline, hdec⟩ | ⟨hnone, -⟩
    · exact ⟨inst, hline, hdec.address⟩
    · -- a reached expression is code
      obtain ⟨inst, hat, -⟩ := h.exists_at? hi
      rw [(h.codeAt?_iff hland).mpr ⟨i, hreach, rfl, hat⟩] at hnone
      cases hnone

/-- **The bytes of any other expression are on data lines.** -/
theorem data_of_not_reached (h : p.Linked origin externs image) (hland : p.Lands origin externs)
    (hi : i ∈ p.code.toList) (hnot : ¬ p.Reached origin externs i) {k : Nat}
    (hk : k < i.expression.size) :
    ∃ x bytes b, Line.data x bytes ∈ (p.analysis origin image).printed image ∧
      x.toNat ≤ origin.toNat + i.address + k ∧
      bytes[origin.toNat + i.address + k - x.toNat]? = some b ∧
      image[i.address + k]? = some b := by
  have hend := (h.wellFormed.laidOut.bounds hi).2
  have hfits := h.fits
  have hlt : i.address + k < image.length := by
    rw [h.length]
    omega
  rw [h.printed_eq_lines hi]
  rcases h.line_of_byte hland hi (x := i.address + k) (by omega) with
    ⟨hreach, -⟩ | ⟨-, s, bytes, hline, hle, hbyte⟩
  · exact absurd hreach hnot
  · have haddr : ((p.analysis origin image).addressOf s).toNat = origin.toNat + s :=
      Analysis.toNat_addressOf (by
        show origin.toNat + s < addressSpace
        omega)
    refine ⟨_, bytes, image[i.address + k], hline, by omega, ?_, List.getElem?_eq_getElem hlt⟩
    rw [haddr, ← List.getElem?_eq_getElem hlt, ← hbyte]
    congr 1
    omega

end Program.Linked

/-- **The listing of a linked program is aligned with it.**  If every branch,
`JMP` and `JSR` whose destination lies inside the image lands on an expression,
then the disassembly with the program's own labels has an instruction only where
an expression stands, with its mnemonic and mode; it has one there exactly if
control reaches the expression from the first one or a labelled one; and all
bytes of the others are on data lines. -/
theorem build_link_aligned {nodes : List Node} {p : Program} (hbuild : build nodes = .ok p)
    {origin : UInt16} {externs : SymbolMap} {image : Bytes}
    (hlink : p.link origin externs = .ok image) (hland : p.Lands origin externs) :
    (∀ listing, disassemble image ⟨origin, p.symbolMap.relocate origin, listing⟩ =
      .ok (((p.analysis origin image).printed image).flatMap
        (Line.text listing (p.analysis origin image).labelAt?))) ∧
    ((∀ name ∈ p.labels, isIdentifier name = true) →
      readListing? (((p.analysis origin image).printed image).flatMap
        (Line.text true (p.analysis origin image).labelAt?)) =
          some (((p.analysis origin image).printed image).map Line.shown)) ∧
    (∀ inst, Line.code inst ∈ (p.analysis origin image).printed image →
      ∃ i ∈ p.code.toList, DecodesTo p origin externs i inst) ∧
    (∀ i ∈ p.code.toList, (∃ inst, Line.code inst ∈ (p.analysis origin image).printed image ∧
      inst.address.toNat = origin.toNat + i.address) ↔ p.Reached origin externs i) ∧
    (∀ i ∈ p.code.toList, ¬ p.Reached origin externs i → ∀ k < i.expression.size,
      ∃ x bytes b, Line.data x bytes ∈ (p.analysis origin image).printed image ∧
        x.toNat ≤ origin.toNat + i.address + k ∧
        bytes[origin.toNat + i.address + k - x.toNat]? = some b ∧
        image[i.address + k]? = some b) := by
  have h := build_linked hbuild hlink
  refine ⟨?_, ?_, ?_, ?_, ?_⟩
  · intro listing
    apply disassemble_eq_printed
    rw [h.length]
    exact h.fits
  · intro hid
    apply Analysis.Readable.readListing?_printed
    · apply Analysis.readable_of_identifiers
      intro entry hentry
      exact hid _ (p.name_mem_labels hentry)
    · exact Analysis.decodes_ofImage _ _ image
  · intro inst hline
    obtain ⟨i, hi, hdec⟩ := h.decodesTo_of_code hland hline
    exact ⟨i, hi.mem, hdec⟩
  · intro i hi
    exact h.code_iff_reached hland hi
  · intro i hi hnot k hk
    exact h.data_of_not_reached hland hi hnot hk

/-- An image up to the top of the address space, with a symbol behind it that
wraps around, an expression that is jumped over, and an imported symbol. -/
theorem build_link_aligned_top :
    ∃ p, build
      [.instruction 1 [ascii "main"] (ascii "JMP") (some ⟨.bare, ascii "entry", 0, ascii "entry"⟩),
       .instruction 2 [] (ascii "STA") (some ⟨.bare, ascii "$8D8D", 0, ascii "$8D8D"⟩),
       .instruction 3 [ascii "entry"] (ascii "LDX") (some ⟨.bare, ascii "port", 0, ascii "port"⟩),
       .instruction 4 [] (ascii "BEQ") (some ⟨.bare, ascii "main", 0, ascii "main"⟩),
       .instruction 5 [] (ascii "RTS") none, .label 6 [ascii "end"]] = .ok p ∧
      p.link 0xFFF4 [(ascii "port", 0x0012)] =
        .ok [0x4C, 0xFA, 0xFF, 0x8D, 0x8D, 0x8D, 0xAE, 0x12, 0x00, 0xF0, 0xF5, 0x60] ∧
      p.Lands 0xFFF4 [(ascii "port", 0x0012)] ∧
      p.Reached 0xFFF4 [(ascii "port", 0x0012)] ⟨9, .beq, .relative, .label (ascii "main"), 4⟩ ∧
      ¬ p.Reached 0xFFF4 [(ascii "port", 0x0012)] ⟨3, .sta, .absolute, .number 0x8D8D, 2⟩ ∧
      ∃ x bytes b, Line.data x bytes ∈ (p.analysis 0xFFF4
          [0x4C, 0xFA, 0xFF, 0x8D, 0x8D, 0x8D, 0xAE, 0x12, 0x00, 0xF0, 0xF5, 0x60]).printed
          [0x4C, 0xFA, 0xFF, 0x8D, 0x8D, 0x8D, 0xAE, 0x12, 0x00, 0xF0, 0xF5, 0x60] ∧
        x.toNat ≤ 0xFFF4 + 3 + 2 ∧ bytes[0xFFF4 + 3 + 2 - x.toNat]? = some b ∧ b = 0x8D := by
  have hbuild : build
      [.instruction 1 [ascii "main"] (ascii "JMP") (some ⟨.bare, ascii "entry", 0, ascii "entry"⟩),
       .instruction 2 [] (ascii "STA") (some ⟨.bare, ascii "$8D8D", 0, ascii "$8D8D"⟩),
       .instruction 3 [ascii "entry"] (ascii "LDX") (some ⟨.bare, ascii "port", 0, ascii "port"⟩),
       .instruction 4 [] (ascii "BEQ") (some ⟨.bare, ascii "main", 0, ascii "main"⟩),
       .instruction 5 [] (ascii "RTS") none, .label 6 [ascii "end"]] =
      .ok ⟨#[⟨0, .jmp, .absolute, .label (ascii "entry"), 1⟩,
        ⟨3, .sta, .absolute, .number 0x8D8D, 2⟩, ⟨6, .ldx, .absolute, .label (ascii "port"), 3⟩,
        ⟨9, .beq, .relative, .label (ascii "main"), 4⟩, ⟨11, .rts, .implied, .none, 5⟩],
        #[⟨ascii "main", 0, some 0, 1⟩, ⟨ascii "entry", 6, some 2, 3⟩,
          ⟨ascii "end", 12, none, 6⟩], 12⟩ := by
    decide +kernel
  have hlink : Program.link ⟨#[⟨0, .jmp, .absolute, .label (ascii "entry"), 1⟩,
        ⟨3, .sta, .absolute, .number 0x8D8D, 2⟩, ⟨6, .ldx, .absolute, .label (ascii "port"), 3⟩,
        ⟨9, .beq, .relative, .label (ascii "main"), 4⟩, ⟨11, .rts, .implied, .none, 5⟩],
        #[⟨ascii "main", 0, some 0, 1⟩, ⟨ascii "entry", 6, some 2, 3⟩,
          ⟨ascii "end", 12, none, 6⟩], 12⟩ 0xFFF4 [(ascii "port", 0x0012)] =
      .ok [0x4C, 0xFA, 0xFF, 0x8D, 0x8D, 0x8D, 0xAE, 0x12, 0x00, 0xF0, 0xF5, 0x60] := by
    decide +kernel
  refine ⟨_, hbuild, hlink, ?_⟩
  generalize hp : Program.mk #[⟨0, .jmp, .absolute, .label (ascii "entry"), 1⟩,
        ⟨3, .sta, .absolute, .number 0x8D8D, 2⟩, ⟨6, .ldx, .absolute, .label (ascii "port"), 3⟩,
        ⟨9, .beq, .relative, .label (ascii "main"), 4⟩, ⟨11, .rts, .implied, .none, 5⟩]
        #[⟨ascii "main", 0, some 0, 1⟩, ⟨ascii "entry", 6, some 2, 3⟩,
          ⟨ascii "end", 12, none, 6⟩] 12 = p at hbuild hlink ⊢
  have hcode : p.code.toList = [⟨0, .jmp, .absolute, .label (ascii "entry"), 1⟩,
      ⟨3, .sta, .absolute, .number 0x8D8D, 2⟩, ⟨6, .ldx, .absolute, .label (ascii "port"), 3⟩,
      ⟨9, .beq, .relative, .label (ascii "main"), 4⟩, ⟨11, .rts, .implied, .none, 5⟩] := by
    rw [← hp]
  have hjmp : LinkedOperand p 0xFFF4 [(ascii "port", 0x0012)]
      ⟨0, .jmp, .absolute, .label (ascii "entry"), 1⟩ 0xFFFA := by
    refine .declared (s := ⟨ascii "entry", 6, some 2, 3⟩) (by decide) rfl ?_ (by decide)
    rw [← hp]
    decide +kernel
  have hbeq : LinkedOperand p 0xFFF4 [(ascii "port", 0x0012)]
      ⟨9, .beq, .relative, .label (ascii "main"), 4⟩ (0xF5 : UInt8).toUInt16 := by
    refine .branch (s := ⟨ascii "main", 0, some 0, 1⟩) rfl rfl ?_ (by decide)
    rw [← hp]
    decide +kernel
  have hland : p.Lands 0xFFF4 [(ascii "port", 0x0012)] := by
    intro i hi t ht _ _
    rw [hcode] at hi ⊢
    simp only [List.mem_cons, List.not_mem_nil, or_false] at hi
    -- only the jump and the branch have a destination
    rcases hi with rfl | rfl | rfl | rfl | rfl
    · cases ht with
      | branch hmode => cases hmode
      | jump _ _ hvalue =>
        rw [← hjmp.unique hvalue]
        exact ⟨⟨6, .ldx, .absolute, .label (ascii "port"), 3⟩, by simp, rfl⟩
    · cases ht with
      | branch hmode => cases hmode
      | jump _ hjump => rcases hjump with hjump | hjump <;> cases hjump
    · cases ht with
      | branch hmode => cases hmode
      | jump _ hjump => rcases hjump with hjump | hjump <;> cases hjump
    · cases ht with
      | branch _ hvalue ht =>
        rw [← hbeq.unique hvalue] at ht
        refine ⟨⟨0, .jmp, .absolute, .label (ascii "entry"), 1⟩, by simp, ?_⟩
        exact Int.ofNat.inj (ht.trans (by decide +kernel))
      | jump hmode => cases hmode
    · cases ht with
      | branch hmode => cases hmode
      | jump hmode => cases hmode
  have hshown : (p.analysis 0xFFF4
      [0x4C, 0xFA, 0xFF, 0x8D, 0x8D, 0x8D, 0xAE, 0x12, 0x00, 0xF0, 0xF5, 0x60]).printed
      [0x4C, 0xFA, 0xFF, 0x8D, 0x8D, 0x8D, 0xAE, 0x12, 0x00, 0xF0, 0xF5, 0x60] =
      [.label (ascii "main"), .code ⟨0xFFF4, .jmp, .absolute, 0xFFFA, [0x4C, 0xFA, 0xFF]⟩,
        .data 0xFFF7 [0x8D, 0x8D, 0x8D], .label (ascii "entry"),
        .code ⟨0xFFFA, .ldx, .absolute, 0x0012, [0xAE, 0x12, 0x00]⟩,
        .code ⟨0xFFFD, .beq, .relative, 0xF5, [0xF0, 0xF5]⟩,
        .code ⟨0xFFFF, .rts, .implied, 0, [0x60]⟩] := by
    rw [← hp]
    decide +kernel
  obtain ⟨-, -, -, hcodeLine, hdataLine⟩ := build_link_aligned hbuild hlink hland
  have hreached : p.Reached 0xFFF4 [(ascii "port", 0x0012)]
      ⟨9, .beq, .relative, .label (ascii "main"), 4⟩ := by
    refine (hcodeLine _ (by simp [hcode])).mp
      ⟨⟨0xFFFD, .beq, .relative, 0xF5, [0xF0, 0xF5]⟩, by simp [hshown], rfl⟩
  have hskipped : ¬ p.Reached 0xFFF4 [(ascii "port", 0x0012)]
      ⟨3, .sta, .absolute, .number 0x8D8D, 2⟩ := by
    intro hreach
    obtain ⟨inst, hline, haddr⟩ := (hcodeLine _ (by simp [hcode])).mpr hreach
    rw [hshown] at hline
    simp only [List.mem_cons, List.not_mem_nil, or_false, reduceCtorEq, false_or,
      Line.code.injEq] at hline
    rcases hline with rfl | rfl | rfl | rfl <;> revert haddr <;> decide
  refine ⟨hland, hreached, hskipped, ?_⟩
  obtain ⟨x, bytes, b, hline, hle, hb, himage⟩ :=
    hdataLine _ (by simp [hcode]) hskipped 2 (by decide)
  exact ⟨x, bytes, b, hline, hle, hb, (Option.some.inj himage).symm⟩

end Mos6502
