/-
Mos6502/Proofs/Decoding.lean

Decoding as the inverse of encoding.  The bytes of an instruction are its
opcode followed by its operand, low byte first; they are determined by
mnemonic, mode and operand, and the decoder finds an instruction exactly where
its bytes stand:

* `readOperand?_eq_some_iff` — for the operand alone;
* `Instruction.fetch?_eq_some_iff` — for a whole instruction;
* `fetchAll?_of_laidOut` — for an image, decoded from one instruction to the
  next.

The last two make no difference between an image that was linked and one that
was read from a file.
-/
import Mos6502.Disassembly.Instruction
import Mos6502.Proofs.Emission
import Mos6502.Proofs.OpcodeMap

namespace Mos6502

/-! ### Operands -/

theorem lo_toUInt16 (b : UInt8) : Word.lo b.toUInt16 = b := by
  rw [Word.lo, UInt8.toUInt8_toUInt16]

theorem toUInt16_lo {w : UInt16} (h : w.toNat < 256) : (Word.lo w).toUInt16 = w := by
  apply UInt16.toNat_inj.mp
  rw [UInt8.toNat_toUInt16, Word.lo, UInt16.toNat_toUInt8]
  omega

/-- An operand is read exactly where its bytes stand. -/
theorem readOperand?_eq_some_iff {mode : Mode} {code : Bytes} {v : UInt16} :
    readOperand? mode.operandLength code = some v ↔
      v.toNat < 256 ^ mode.operandLength ∧ operandBytes mode (.number v) <+: code := by
  unfold operandBytes
  have hlen : mode.operandLength = 0 ∨ mode.operandLength = 1 ∨ mode.operandLength = 2 := by
    cases mode <;> decide
  rcases hlen with hlen | hlen | hlen <;> rw [hlen]
  · show some 0 = some v ↔ v.toNat < 1 ∧ [] <+: code
    rw [Option.some.injEq, ← UInt16.toNat_inj, UInt16.toNat_zero]
    simp only [List.nil_prefix, and_true]
    omega
  · show readOperand? 1 code = some v ↔ v.toNat < 256 ∧ [Word.lo v] <+: code
    rcases code with - | ⟨l, rest⟩
    · simp [readOperand?]
    · rw [readOperand?, Option.some.injEq, List.cons_prefix_cons]
      constructor
      · rintro rfl
        rw [UInt8.toNat_toUInt16, lo_toUInt16]
        exact ⟨l.toNat_lt, rfl, List.nil_prefix⟩
      · rintro ⟨hlt, rfl, -⟩
        exact toUInt16_lo hlt
  · show readOperand? 2 code = some v ↔ v.toNat < 256 ^ 2 ∧ [Word.lo v, Word.hi v] <+: code
    have hv : v.toNat < 256 ^ 2 := v.toNat_lt
    rcases code with - | ⟨l, - | ⟨h, rest⟩⟩
    · simp [readOperand?]
    · simp [readOperand?]
    · rw [readOperand?, Option.some.injEq, List.cons_prefix_cons, List.cons_prefix_cons]
      constructor
      · rintro rfl
        rw [Word.lo_ofBytes, Word.hi_ofBytes]
        exact ⟨hv, rfl, rfl, List.nil_prefix⟩
      · rintro ⟨-, rfl, rfl, -⟩
        exact Word.ofBytes_lo_hi v

theorem toNat_wordOfInt_emod (n : Int) : ((wordOfInt n).toNat : Int) = n % 0x10000 := by
  rw [wordOfInt, UInt16.toNat_ofNat']
  omega

/-! ### Instructions -/

namespace Instruction

variable {address : UInt16} {code : Bytes} {i : Instruction}

/-- **An instruction is decoded exactly where its bytes stand.** -/
theorem fetch?_eq_some_iff :
    fetch? address code = some i ↔ i.address = address ∧
      i.operand.toNat < 256 ^ i.mode.operandLength ∧
      ∃ opcode, Opcode.encode? i.mnemonic i.mode = some opcode ∧
        i.bytes = opcode :: operandBytes i.mode (.number i.operand) ∧ i.bytes <+: code := by
  constructor
  · intro h
    rcases code with - | ⟨b, rest⟩
    · cases h
    · rw [fetch?] at h
      rcases hrow : Opcode.decode? b with - | row
      · rw [hrow] at h
        cases h
      · simp only [hrow] at h
        rcases hv : readOperand? row.mode.operandLength rest with - | v
        · rw [hv] at h
          cases h
        · simp only [hv] at h
          cases h
          obtain ⟨hlt, hpre⟩ := readOperand?_eq_some_iff.mp hv
          have htake : rest.take row.mode.operandLength = operandBytes row.mode (.number v) := by
            rw [List.prefix_iff_eq_take.mp hpre, length_operandBytes]
          refine ⟨rfl, hlt, b, Opcode.encode?_of_decode? hrow, ?_, ?_⟩
          · show b :: rest.take row.mode.operandLength = _
            rw [htake]
          · exact List.cons_prefix_cons.mpr ⟨rfl, List.take_prefix _ _⟩
  · rintro ⟨rfl, hlt, opcode, hop, hbytes, hpre⟩
    rcases code with - | ⟨b, rest⟩
    · rw [hbytes] at hpre
      exact absurd (List.prefix_nil.mp hpre) (List.cons_ne_nil _ _)
    · rw [hbytes, List.cons_prefix_cons] at hpre
      obtain ⟨rfl, hpre⟩ := hpre
      have htake : rest.take i.mode.operandLength = operandBytes i.mode (.number i.operand) := by
        have := List.prefix_iff_eq_take.mp hpre
        rw [length_operandBytes] at this
        exact this.symm
      rw [fetch?, Opcode.decode?_of_encode? hop]
      dsimp only
      rw [readOperand?_eq_some_iff.mpr ⟨hlt, hpre⟩]
      dsimp only
      rw [htake, ← hbytes]

/-- The bytes of an instruction alone decode to it. -/
theorem fetch?_bytes (h : fetch? address code = some i) : fetch? i.address i.bytes = some i := by
  obtain ⟨-, hlt, opcode, hop, hbytes, -⟩ := fetch?_eq_some_iff.mp h
  exact fetch?_eq_some_iff.mpr ⟨rfl, hlt, opcode, hop, hbytes, List.prefix_rfl⟩

theorem length_bytes_of_fetch? (h : fetch? address code = some i) :
    i.bytes.length = i.mode.size := by
  obtain ⟨-, -, opcode, -, hbytes, -⟩ := fetch?_eq_some_iff.mp h
  rw [hbytes, List.length_cons, length_operandBytes, Mode.size]

end Instruction

/-! ### Images -/

/-- The instructions of an image, decoded from each to the one that follows
it; none if some byte string on the way is no instruction. -/
def fetchAll? (address : UInt16) (code : Bytes) : Option (List Instruction) :=
  match code with
  | [] => some []
  | b :: rest =>
    match Instruction.fetch? address (b :: rest) with
    | none => none
    | some i =>
      (fetchAll? (address + i.mode.size.toUInt16) (rest.drop i.mode.operandLength)).map (i :: ·)
termination_by code.length
decreasing_by
  simp only [List.length_drop, List.length_cons]
  omega

theorem fetchAll?_of_fetch? {address : UInt16} {code : Bytes} {i : Instruction}
    (h : Instruction.fetch? address code = some i) :
    fetchAll? address code =
      (fetchAll? (address + i.mode.size.toUInt16) (code.drop i.mode.size)).map (i :: ·) := by
  rcases code with - | ⟨b, rest⟩
  · cases h
  · rw [fetchAll?, h]
    rfl

theorem toUInt16_add (m n : Nat) : (m + n).toUInt16 = m.toUInt16 + n.toUInt16 :=
  UInt16.ofNat_add m n

/-- **Decoding an image meets the expressions of a layout, one by one.**  The
image ends where the layout ends, and at the address of every expression there
is an instruction of the right size. -/
theorem fetchAll?_of_laidOut {R : Placed → Instruction → Prop} (origin : UInt16) {a z : Nat}
    {code : List Placed} {image : Bytes} (h : LaidOut a code z) (hlen : image.length = z)
    (hcode : ∀ i ∈ code, ∃ inst, Instruction.fetch? (origin + i.address.toUInt16)
      (image.drop i.address) = some inst ∧ inst.mode = i.expression.mode ∧ R i inst) :
    ∃ insts, fetchAll? (origin + a.toUInt16) (image.drop a) = some insts ∧
      List.Forall₂ R code insts := by
  induction h with
  | nil a =>
    refine ⟨[], ?_, .nil⟩
    rw [List.drop_eq_nil_of_le (Nat.le_of_eq hlen), fetchAll?]
  | @cons a z e rest hrest ih =>
    obtain ⟨insts, hinsts, hR⟩ := ih hlen fun i hi => hcode i (List.mem_cons_of_mem _ hi)
    obtain ⟨inst, hfetch, hmode, hinst⟩ := hcode ⟨a, e⟩ List.mem_cons_self
    refine ⟨inst :: insts, ?_, .cons hinst hR⟩
    -- the next instruction starts where this one ends
    have hnext : origin + a.toUInt16 + inst.mode.size.toUInt16 = origin + (a + e.size).toUInt16 := by
      rw [hmode, toUInt16_add, UInt16.add_assoc]
      rfl
    rw [fetchAll?_of_fetch? hfetch, hnext, List.drop_drop, hmode]
    show (fetchAll? _ (image.drop (a + e.size))).map _ = _
    rw [hinsts]
    rfl

end Mos6502
