/-
Mos6502/Proofs/ControlFlow.lean

What the analysis of an image finds, against the machine code alone.

* Where control goes is said on the bytes: an instruction is what decodes at an
  offset, control falls through or goes to a destination, and every instruction
  on the way is complete (`ControlStep`, `IsEntry`).
* An offset is marked exactly if control gets there (`marked_ofImage_iff`).
* An address inside the image has a made-up label exactly if a marked
  instruction goes there, and it is that of a subroutine exactly if one of them
  is a call (`madeUpAt?_ofImage`).
* Marked offsets may lie inside one another's instructions.  The lines take
  them from the front, so the first one wins (`exists_rendersAt_iff`), and what
  they print is what decodes there (`RendersAt.instructionAt?_eq`).
-/
import Mathlib.Data.Int.ModEq
import Mathlib.Logic.Relation
import Mos6502.Proofs.Reachability
import Mos6502.Proofs.Tiling

namespace Mos6502

/-! ### Control on the bytes of an image -/

/-- The complete instruction at an offset of an image. -/
def instructionAt? (origin : UInt16) (code : Bytes) (o : Nat) : Option Instruction :=
  Instruction.fetch? (origin + o.toUInt16) (code.drop o)

/-- An address that an instruction may send control to: a branch counts from
its end, modulo the address space, and `JMP` and `JSR` name an address. -/
inductive Instruction.Targets (i : Instruction) : UInt16 → Prop
  | branch {x : UInt16} : i.mnemonic.isBranch = true →
      (x.toNat : Int) ≡ i.address.toNat + 2 + signedByte (Word.lo i.operand) [ZMOD 0x10000] →
      Targets i x
  | absolute : i.mnemonic = .jmp ∨ i.mnemonic = .jsr → i.mode = .absolute → Targets i i.operand

/-- One step of control, from a complete instruction to a complete
instruction. -/
inductive ControlStep (origin : UInt16) (code : Bytes) : Nat → Nat → Prop
  | next {o : Nat} {i j : Instruction} : instructionAt? origin code o = some i →
      i.mnemonic ∉ [.rts, .rti, .jmp, .brk] →
      instructionAt? origin code (o + i.mode.size) = some j →
      ControlStep origin code o (o + i.mode.size)
  | jump {o o' : Nat} {i j : Instruction} {x : UInt16} : instructionAt? origin code o = some i →
      i.Targets x → x.toNat = origin.toNat + o' → instructionAt? origin code o' = some j →
      ControlStep origin code o o'

/-- An offset where control may enter: the first, or that of a symbol. -/
def IsEntry (origin : UInt16) (symbols : SymbolMap) (o : Nat) : Prop :=
  o = 0 ∨ ∃ entry ∈ symbols, entry.2.toNat = origin.toNat + o

/-! ### Destinations -/

theorem wordOfInt_eq_iff {n : Int} {x : UInt16} :
    wordOfInt n = x ↔ (x.toNat : Int) ≡ n [ZMOD 0x10000] := by
  have hx : (x.toNat : Int) % 0x10000 = x.toNat :=
    Int.emod_eq_of_lt (Int.natCast_nonneg _) (by exact_mod_cast x.toNat_lt)
  rw [← UInt16.toNat_inj, ← Int.natCast_inj, toNat_wordOfInt_emod, Int.ModEq, hx, eq_comm]

theorem Instruction.target?_eq_some_iff {address x : UInt16} {bytes : Bytes} {i : Instruction}
    (h : fetch? address bytes = some i) : i.target? = some x ↔ i.Targets x := by
  have hbranch : i.mnemonic.isBranch = true ↔ i.mode = .relative := by
    obtain ⟨-, -, opcode, hop, -⟩ := fetch?_eq_some_iff.mp h
    have hsup : Opcode.supports i.mnemonic i.mode = true := by simp [Opcode.supports, hop]
    rw [Opcode.isBranch_of_supports hsup, beq_iff_eq]
  have hlength : i.mode = .relative → i.bytes.length = 2 := by
    intro hmode
    rw [length_bytes_of_fetch? h, hmode]
    rfl
  constructor
  · intro hx
    rcases target?_cases hx with ⟨hmode, rfl⟩ | ⟨hmode, hname, rfl⟩
    · rw [hlength hmode]
      exact .branch (hbranch.mpr hmode) (wordOfInt_eq_iff.mp rfl)
    · exact .absolute hname hmode
  · intro hx
    cases hx with
    | branch hname hx =>
      have hmode := hbranch.mp hname
      rw [target?_relative hmode, hlength hmode]
      exact congrArg some (wordOfInt_eq_iff.mpr hx)
    | absolute hname hmode =>
      rw [target?, hmode]
      rcases hname with hname | hname <;> rw [hname] <;> rfl

theorem lt_length_of_instructionAt? {origin : UInt16} {code : Bytes} {o : Nat} {i : Instruction}
    (h : instructionAt? origin code o = some i) : o < code.length := by
  by_contra hge
  rw [instructionAt?, List.drop_eq_nil_of_le (by omega)] at h
  cases h

/-- The destination of an instruction as an offset. -/
theorem targetOffset?_eq_some_iff {origin : UInt16} {code : Bytes} {o o' : Nat} {i : Instruction}
    (h : instructionAt? origin code o = some i) :
    i.targetOffset? origin code.length = some o' ↔
      ∃ x, i.Targets x ∧ x.toNat = origin.toNat + o' ∧ o' < code.length := by
  simp only [Instruction.targetOffset?, Option.bind_eq_some_iff,
    Instruction.target?_eq_some_iff h, offsetOf?_eq_some_iff]

/-! ### Marks -/

section Marks

variable {origin : UInt16} {symbols : SymbolMap} {code : Bytes} {o o' : Nat} {i j : Instruction}

theorem Mnemonic.isTerminal_iff (m : Mnemonic) :
    m.isTerminal = true ↔ m ∈ [.rts, .rti, .jmp, .brk] := by
  cases m <;> decide

theorem mem_entries_iff (hj : instructionAt? origin code o = some j) :
    o ∈ entries origin code.length symbols ↔ IsEntry origin symbols o := by
  have ho := lt_length_of_instructionAt? hj
  simp [entries, IsEntry, List.mem_filterMap, offsetOf?_eq_some_iff, ho]

/-- The successors that hold an instruction are those of a step of control. -/
theorem mem_successors_iff_controlStep (hi : instructionAt? origin code o = some i)
    (hj : instructionAt? origin code o' = some j) :
    o' ∈ successors origin code.length o i ↔ ControlStep origin code o o' := by
  have hsize := Instruction.length_bytes_of_fetch? hi
  have hmem : o' ∈ successors origin code.length o i ↔
      (i.mnemonic ∉ [.rts, .rti, .jmp, .brk] ∧ o' = o + i.mode.size) ∨
        ∃ x, i.Targets x ∧ x.toNat = origin.toNat + o' ∧ o' < code.length := by
    rw [successors, List.mem_append, Option.mem_toList, targetOffset?_eq_some_iff hi, hsize,
      ← Mnemonic.isTerminal_iff]
    cases i.mnemonic.isTerminal <;> simp
  rw [hmem]
  constructor
  · rintro (⟨hname, rfl⟩ | ⟨x, hx, haddr, -⟩)
    · exact .next hi hname hj
    · exact .jump hi hx haddr hj
  · intro h
    cases h with
    | next hi' hname _ =>
      cases hi.symm.trans hi'
      exact .inl ⟨hname, rfl⟩
    | jump hi' hx haddr hj' =>
      cases hi.symm.trans hi'
      exact .inr ⟨_, hx, haddr, lt_length_of_instructionAt? hj'⟩

theorem ControlStep.exists_instruction (h : ControlStep origin code o o') :
    (∃ i, instructionAt? origin code o = some i) ∧ ∃ j, instructionAt? origin code o' = some j := by
  cases h with
  | next hi _ hj => exact ⟨⟨_, hi⟩, ⟨_, hj⟩⟩
  | jump hi _ _ hj => exact ⟨⟨_, hi⟩, ⟨_, hj⟩⟩

/-- The offsets that control reaches, as paths from an entry. -/
theorem reachable_iff_path :
    Reachable origin (sweep origin code) (entries origin (sweep origin code).size symbols) o ↔
      (∃ i, instructionAt? origin code o = some i) ∧
        ∃ s, IsEntry origin symbols s ∧ Relation.ReflTransGen (ControlStep origin code) s o := by
  have hat : ∀ o, (sweep origin code).at? o = instructionAt? origin code o := sweep_at? origin code
  rw [size_sweep]
  constructor
  · intro h
    induction h with
    | start hstart hi =>
      rw [hat] at hi
      exact ⟨⟨_, hi⟩, _, (mem_entries_iff hi).mp hstart, .refl⟩
    | step _ hi hnext hj ih =>
      rw [hat] at hi hj
      rw [size_sweep] at hnext
      obtain ⟨-, s, hs, hpath⟩ := ih
      exact ⟨⟨_, hj⟩, s, hs, hpath.tail ((mem_successors_iff_controlStep hi hj).mp hnext)⟩
  · rintro ⟨⟨j, hj⟩, s, hs, hpath⟩
    induction hpath generalizing j with
    | refl => exact .start ((mem_entries_iff hj).mpr hs) ((hat _).trans hj)
    | tail _ hstep ih =>
      obtain ⟨⟨i, hi⟩, -⟩ := hstep.exists_instruction
      refine .step (ih i hi) ((hat _).trans hi) ?_ ((hat _).trans hj)
      rw [size_sweep]
      exact (mem_successors_iff_controlStep hi hj).mpr hstep

/-- **The search marks what control reaches.** -/
theorem marked_ofImage_iff :
    (Analysis.ofImage origin symbols code).marked[o]? = some true ↔
      (∃ i, instructionAt? origin code o = some i) ∧
        ∃ s, IsEntry origin symbols s ∧ Relation.ReflTransGen (ControlStep origin code) s o :=
  markAll_iff.trans reachable_iff_path

end Marks

namespace Analysis

variable {a : Analysis} {origin x : UInt16} {symbols : SymbolMap} {code : Bytes} {o : Nat}
  {i : Instruction}

/-! ### Labels -/

/-- A marked instruction that may send control to an address. -/
def TargetedBy (a : Analysis) (code : Bytes) (x : UInt16) (i : Instruction) : Prop :=
  ∃ o, a.marked[o]? = some true ∧ instructionAt? a.origin code o = some i ∧ i.Targets x

theorem targetedBy_ofImage_iff (hx : x.toNat = origin.toNat + o) (ho : o < code.length) :
    (ofImage origin symbols code).TargetedBy code x i ↔
      i ∈ markedInstructions (ofImage origin symbols code).sweep
        (ofImage origin symbols code).marked ∧
      i.targetOffset? origin (ofImage origin symbols code).sweep.size = some o := by
  show _ ↔ i ∈ markedInstructions (Mos6502.sweep origin code) _ ∧
    i.targetOffset? origin (Mos6502.sweep origin code).size = some o
  simp only [mem_markedInstructions_iff, size_sweep, sweep_at?]
  constructor
  · rintro ⟨o', hmarked, hi, htarget⟩
    exact ⟨⟨o', hmarked, hi⟩, (targetOffset?_eq_some_iff hi).mpr ⟨x, htarget, hx, ho⟩⟩
  · rintro ⟨⟨o', hmarked, hi⟩, htarget⟩
    obtain ⟨y, hy, hyo, -⟩ := (targetOffset?_eq_some_iff hi).mp htarget
    have hxy : y = x := UInt16.toNat_inj.mp (hyo.trans hx.symm)
    exact ⟨o', hmarked, hi, hxy ▸ hy⟩

/-- The made-up label of an address by its use. -/
theorem exists_madeUpAt?_eq_ofUse (symbols : SymbolMap) (hlow : origin.toNat ≤ x.toNat)
    (hhigh : x.toNat < origin.toNat + code.length) :
    ∃ called targeted, (ofImage origin symbols code).madeUpAt? x =
        (LabelKind.ofUse called targeted).map (LabelKind.labelName x) ∧
      (called = true ↔
        ∃ i, (ofImage origin symbols code).TargetedBy code x i ∧ i.mnemonic = .jsr) ∧
      (targeted = true ↔ ∃ i, (ofImage origin symbols code).TargetedBy code x i) := by
  obtain ⟨o, hx⟩ := Nat.exists_eq_add_of_le hlow
  have ho : o < code.length := by omega
  refine ⟨_, _, madeUpAt?_eq hx (getElem?_labelKinds _ ?_), ?_, ?_⟩
  · show o < (Mos6502.sweep origin code).size
    rw [size_sweep]
    exact ho
  · simp only [targetedBy_ofImage_iff hx ho, List.any_eq_true, Bool.and_eq_true, decide_eq_true_eq,
      Instruction.isCall, beq_iff_eq]
    constructor
    · rintro ⟨i, hmem, hcall, htarget⟩
      exact ⟨i, ⟨hmem, htarget⟩, hcall⟩
    · rintro ⟨i, ⟨hmem, htarget⟩, hcall⟩
      exact ⟨i, hmem, hcall, htarget⟩
  · simp only [targetedBy_ofImage_iff hx ho, List.any_eq_true, decide_eq_true_eq]
    rfl

/-- **Made-up labels** are for the places that marked instructions go to.  A
call among these instructions makes the place a subroutine. -/
theorem madeUpAt?_ofImage (symbols : SymbolMap) (hlow : origin.toNat ≤ x.toNat)
    (hhigh : x.toNat < origin.toNat + code.length) :
    ((ofImage origin symbols code).madeUpAt? x = none ↔
      ¬ ∃ i, (ofImage origin symbols code).TargetedBy code x i) ∧
    ((ofImage origin symbols code).madeUpAt? x = some (LabelKind.subroutine.labelName x) ↔
      ∃ i, (ofImage origin symbols code).TargetedBy code x i ∧ i.mnemonic = .jsr) ∧
    ((ofImage origin symbols code).madeUpAt? x = some (LabelKind.jump.labelName x) ↔
      (∃ i, (ofImage origin symbols code).TargetedBy code x i) ∧
        ¬ ∃ i, (ofImage origin symbols code).TargetedBy code x i ∧ i.mnemonic = .jsr) := by
  obtain ⟨called, targeted, hmade, hcalled, htargeted⟩ :=
    exists_madeUpAt?_eq_ofUse symbols hlow hhigh
  have hle : called = true → targeted = true := fun h => by
    obtain ⟨i, hi, -⟩ := hcalled.mp h
    exact htargeted.mpr ⟨i, hi⟩
  -- the two kinds of names differ in their first letter
  have hne : LabelKind.subroutine.labelName x ≠ LabelKind.jump.labelName x := by
    intro h
    cases (List.cons.inj h).1
  rw [hmade, ← hcalled, ← htargeted]
  cases called
  · cases targeted <;> simp [LabelKind.ofUse, hne.symm]
  · simp [LabelKind.ofUse, hle rfl, hne]

/-! ### Lines -/

/-- An offset where an instruction is printed. -/
def RendersAt (a : Analysis) (code : Bytes) (o : Nat) (i : Instruction) : Prop :=
  ∃ k, (a.lines code)[k]? = some (.code i) ∧ Line.offset (a.lines code) k = o

theorem RendersAt.codeAt? (hdec : a.Decodes code)
    (hfit : a.origin.toNat + code.length ≤ addressSpace) (h : a.RendersAt code o i) :
    a.codeAt? o = some i := by
  obtain ⟨k, hk, rfl⟩ := h
  exact (standsAt_of_getElem? hdec hfit hk).2

theorem RendersAt.instructionAt?_eq (hdec : a.Decodes code)
    (hfit : a.origin.toNat + code.length ≤ addressSpace) (h : a.RendersAt code o i) :
    instructionAt? a.origin code o = some i :=
  hdec o i (h.codeAt? hdec hfit)

/-- A printed instruction is a piece of the text. -/
theorem RendersAt.exists_flatMap_text_eq (h : a.RendersAt code o i) (listing : Bool)
    (labelAt? : UInt16 → Option Bytes) :
    ∃ before after, (a.lines code).flatMap (Line.text listing labelAt?) =
      before ++ Line.text listing labelAt? (.code i) ++ after := by
  obtain ⟨k, hk, -⟩ := h
  obtain ⟨before, after, hlines⟩ := List.append_of_mem (List.mem_of_getElem? hk)
  refine ⟨before.flatMap (Line.text listing labelAt?),
    after.flatMap (Line.text listing labelAt?), ?_⟩
  rw [hlines, List.flatMap_append, List.flatMap_cons, List.append_assoc]

/-- Printed instructions do not overlap. -/
theorem RendersAt.not_inside (hdec : a.Decodes code)
    (hfit : a.origin.toNat + code.length ≤ addressSpace) {s : Nat} {j : Instruction}
    (h : a.RendersAt code o i) (hs : a.RendersAt code s j) (hlt : s < o) :
    s + j.mode.size ≤ o := by
  have hsize := length_bytes_of_codeAt? hdec (hs.codeAt? hdec hfit)
  obtain ⟨k, hk, rfl⟩ := h
  obtain ⟨m, hm, rfl⟩ := hs
  rcases Nat.lt_trichotomy m k with hmk | rfl | hkm
  · have := Line.offset_add_le_offset hm hmk
    rw [← hsize]
    exact this
  · omega
  · have := Line.offset_add_le_offset hk hkm
    omega

/-- An instruction among the lines is printed at its own offset. -/
theorem rendersAt_of_mem (hdec : a.Decodes code)
    (hfit : a.origin.toNat + code.length ≤ addressSpace) (hcode : a.codeAt? o = some i)
    (hmem : Line.code i ∈ a.lines code) : a.RendersAt code o i := by
  obtain ⟨k, hk⟩ := List.mem_iff_getElem?.mp hmem
  obtain ⟨hlt, hat⟩ := standsAt_of_getElem? hdec hfit hk
  have ho : o < code.length := lt_length_of_instructionAt? (hdec o i hcode)
  -- two offsets with the same instruction have the same address
  have haddr : a.addressOf (Line.offset (a.lines code) k) = a.addressOf o :=
    (address_of_codeAt? hdec hat).symm.trans (address_of_codeAt? hdec hcode)
  refine ⟨k, hk, ?_⟩
  have hnat := congrArg UInt16.toNat haddr
  rw [toNat_addressOf hlt, toNat_addressOf (by omega)] at hnat
  omega

/-- **The first instruction wins.**  Reached code is printed unless it begins
inside an instruction that is printed. -/
theorem exists_rendersAt_iff (hdec : a.Decodes code)
    (hfit : a.origin.toNat + code.length ≤ addressSpace) :
    (∃ i, a.RendersAt code o i) ↔ (∃ i, a.codeAt? o = some i) ∧
      ¬ ∃ s i, a.RendersAt code s i ∧ s < o ∧ o < s + i.mode.size := by
  constructor
  · rintro ⟨i, h⟩
    refine ⟨⟨i, h.codeAt? hdec hfit⟩, ?_⟩
    rintro ⟨s, j, hs, hlt, hinside⟩
    have := h.not_inside hdec hfit hs hlt
    omega
  · rintro ⟨⟨i, hcode⟩, houtside⟩
    have ho : o < code.length := lt_length_of_instructionAt? (hdec o i hcode)
    cases a.onLine code ho with
    | @code s j hs hopens hle hlt =>
      have hrenders := rendersAt_of_mem hdec hfit hs hopens.mem
      rcases Nat.eq_or_lt_of_le hle with rfl | hbefore
      · exact ⟨j, hrenders⟩
      · exact absurd ⟨s, j, hrenders, hbefore, hlt⟩ houtside
    | data _ _ _ _ hnone _ =>
      rw [hcode] at hnone
      cases hnone

theorem exists_codeAt?_iff : (∃ i, (ofImage origin symbols code).codeAt? o = some i) ↔
    (ofImage origin symbols code).marked[o]? = some true := by
  simp only [codeAt?_eq_some_iff]
  constructor
  · rintro ⟨i, hmarked, -⟩
    exact hmarked
  · intro hmarked
    obtain ⟨⟨i, hi⟩, -⟩ := marked_ofImage_iff.mp hmarked
    exact ⟨i, hmarked, (sweep_at? origin code o).trans hi⟩

end Analysis

/-! ### Disassembly -/

/-- What an analysis has to find out about an image. -/
structure Analysis.FollowsControl (a : Analysis) (code : Bytes) : Prop where
  /-- It marks the complete instructions on a path of control from an entry. -/
  marked : ∀ o, a.marked[o]? = some true ↔
    (∃ i, instructionAt? a.origin code o = some i) ∧
      ∃ s, IsEntry a.origin a.symbols s ∧ Relation.ReflTransGen (ControlStep a.origin code) s o
  /-- It makes up a label for the places inside the image that marked
  instructions go to. -/
  labels : ∀ x : UInt16, a.origin.toNat ≤ x.toNat → x.toNat < a.origin.toNat + code.length →
    (a.madeUpAt? x = none ↔ ¬ ∃ i, a.TargetedBy code x i) ∧
    (a.madeUpAt? x = some (LabelKind.subroutine.labelName x) ↔
      ∃ i, a.TargetedBy code x i ∧ i.mnemonic = .jsr) ∧
    (a.madeUpAt? x = some (LabelKind.jump.labelName x) ↔
      (∃ i, a.TargetedBy code x i) ∧ ¬ ∃ i, a.TargetedBy code x i ∧ i.mnemonic = .jsr)
  /-- It prints the marked instructions, except those that begin inside a
  printed one. -/
  lines : ∀ o, (∃ i, a.RendersAt code o i) ↔ a.marked[o]? = some true ∧
    ¬ ∃ s i, a.RendersAt code s i ∧ s < o ∧ o < s + i.mode.size
  /-- What it prints is the instruction that decodes there. -/
  decoded : ∀ o i, a.RendersAt code o i → instructionAt? a.origin code o = some i

/-- **A disassembly follows control.**  Its text is that of the lines of an
analysis, this analysis finds out where control goes, and every instruction it
prints stands on a line of the text. -/
theorem disassemble_follows_control {code : Bytes} (hne : code ≠ []) {origin : UInt16}
    (hfit : origin.toNat + code.length ≤ 0x10000) (symbols : SymbolMap) (listing : Bool) :
    disassemble code ⟨origin, symbols, listing⟩ =
        .ok (((Analysis.ofImage origin symbols code).lines code).flatMap
          (Line.text listing (Analysis.ofImage origin symbols code).labelAt?)) ∧
      (Analysis.ofImage origin symbols code).FollowsControl code ∧
      ∀ o i, (Analysis.ofImage origin symbols code).RendersAt code o i → ∃ before after,
        disassemble code ⟨origin, symbols, listing⟩ = .ok (before ++
          ((if listing then margin i.address i.bytes else []) ++
            (ascii "    " ++ Text.dropTrailingSpaces
              (i.text (Analysis.ofImage origin symbols code).labelAt?)) ++ [0x0A]) ++
          after) := by
  have hdec := Analysis.decodes_ofImage origin symbols code
  have htext := disassemble_of_ne_nil hne hfit symbols listing
  refine ⟨htext, ⟨fun o => marked_ofImage_iff, fun x => Analysis.madeUpAt?_ofImage symbols,
    fun o => ?_, fun o i h => h.instructionAt?_eq hdec hfit⟩, fun o i h => ?_⟩
  · rw [← Analysis.exists_codeAt?_iff]
    exact Analysis.exists_rendersAt_iff hdec hfit
  · obtain ⟨before, after, hlines⟩ := h.exists_flatMap_text_eq listing
      (Analysis.ofImage origin symbols code).labelAt?
    exact ⟨before, after, htext.trans (congrArg Except.ok hlines)⟩

/-- A call into the middle of the instruction behind it: `JSR $C004`,
`BIT $01A9`, `RTS`, with `LDA #$01` inside the second. -/
def hiddenEntry : Bytes :=
  [0x20, 0x04, 0xC0, 0x2C, 0xA9, 0x01, 0x60]

/-- The call's destination is marked and has the label of a subroutine.  It is
inside the instruction behind the call, which is printed, and so it is not. -/
theorem disassemble_follows_control_hidden :
    (hiddenEntry ≠ [] ∧ (0xC000 : UInt16).toNat + hiddenEntry.length ≤ 0x10000) ∧
      (Analysis.ofImage 0xC000 [] hiddenEntry).marked[4]? = some true ∧
      (Analysis.ofImage 0xC000 [] hiddenEntry).madeUpAt? 0xC004 = some (ascii "sub_C004") ∧
      (Analysis.ofImage 0xC000 [] hiddenEntry).RendersAt hiddenEntry 3
        ⟨0xC003, .bit, .absolute, 0x01A9, [0x2C, 0xA9, 0x01]⟩ ∧
      (¬ ∃ i, (Analysis.ofImage 0xC000 [] hiddenEntry).RendersAt hiddenEntry 4 i) ∧
      ∃ before after, disassemble hiddenEntry ⟨0xC000, [], true⟩ =
        .ok (before ++ ascii "C003  2C A9 01     BIT $01A9\n" ++ after) := by
  obtain ⟨-, ⟨hmarked, hlabels, hlines, hdecoded⟩, htext⟩ :=
    @disassemble_follows_control hiddenEntry (List.cons_ne_nil _ _) 0xC000 (by decide) [] true
  have hcall : instructionAt? 0xC000 hiddenEntry 0 =
      some ⟨0xC000, .jsr, .absolute, 0xC004, [0x20, 0x04, 0xC0]⟩ := rfl
  have htest : instructionAt? 0xC000 hiddenEntry 3 =
      some ⟨0xC003, .bit, .absolute, 0x01A9, [0x2C, 0xA9, 0x01]⟩ := rfl
  have hload : instructionAt? 0xC000 hiddenEntry 4 =
      some ⟨0xC004, .lda, .immediate, 0x01, [0xA9, 0x01]⟩ := rfl
  have hfirst := (hmarked 0).mpr ⟨⟨_, hcall⟩, 0, .inl rfl, .refl⟩
  have hsecond := (hmarked 3).mpr ⟨⟨_, htest⟩, 0, .inl rfl, .single (.next hcall (by decide) htest)⟩
  have hthird := (hmarked 4).mpr ⟨⟨_, hload⟩, 0, .inl rfl,
    .single (.jump hcall (.absolute (.inr rfl) rfl) rfl hload)⟩
  have hrendersFirst := (hlines 0).mpr ⟨hfirst, fun ⟨_, _, _, hlt, _⟩ => Nat.not_lt_zero _ hlt⟩
  -- an offset inside the call prints nothing, so nothing printed reaches past the call
  have hrenders : ∃ i, (Analysis.ofImage 0xC000 [] hiddenEntry).RendersAt hiddenEntry 3 i := by
    refine (hlines 3).mpr ⟨hsecond, ?_⟩
    rintro ⟨s, i, hs, hlt, hinside⟩
    obtain ⟨j, hj⟩ := hrendersFirst
    cases hcall.symm.trans (hdecoded 0 j hj)
    rcases Nat.eq_zero_or_pos s with rfl | hpos
    · cases hcall.symm.trans (hdecoded 0 i hs)
      exact absurd hinside (by decide)
    · exact ((hlines s).mp ⟨i, hs⟩).2 ⟨0, _, hj, hpos, hlt⟩
  obtain ⟨i, hi⟩ := hrenders
  cases htest.symm.trans (hdecoded 3 i hi)
  refine ⟨⟨List.cons_ne_nil _ _, by decide⟩, hthird, ?_, hi, ?_, ?_⟩
  · exact (hlabels 0xC004 (by decide) (by decide)).2.1.mpr
      ⟨_, ⟨0, hfirst, hcall, .absolute (.inr rfl) rfl⟩, rfl⟩
  · exact fun h => ((hlines 4).mp h).2 ⟨3, _, hi, by decide, by decide⟩
  · exact htext 3 _ hi

end Mos6502
