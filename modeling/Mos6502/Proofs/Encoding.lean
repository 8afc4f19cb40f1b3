/-
Mos6502/Proofs/Encoding.lean

The linked image is the program.  Decoding it gives back every expression at
its address, with its mnemonic and mode and with the operand that the source
means (`LinkedOperand`): a literal as it stands, the value of a label, and for
a branch to a label the displacement that leads to it.

An image differs from the emitted section only in the slots, so there are two
cases (`Program.image_operand`).

* An operand that is no label keeps its emitted bytes: every slot is the
  operand of some other expression.
* A label operand is the slot of its own relocation and holds its patch.

In both, opcode and operand stand at the address of the expression as its
encoding, and the decoder reads them back.  `build_link_decodes` puts this
together for a whole program.
-/
import Mos6502.Proofs.Branches
import Mos6502.Proofs.Decoding

namespace Mos6502

variable {p : Program} {origin : UInt16} {externs : SymbolMap} {i : Placed} {raw image : Bytes}

/-! ### Operands after linking -/

/-- The operand that an expression has in an image linked at an origin. -/
inductive LinkedOperand (p : Program) (origin : UInt16) (externs : SymbolMap) (i : Placed) :
    UInt16 → Prop
  | none : i.expression.operand = .none → LinkedOperand p origin externs i 0
  | number {n : UInt16} : i.expression.operand = .number n → LinkedOperand p origin externs i n
  /-- A label of the program is worth its address, modulo the address space. -/
  | declared {name : Bytes} {s : Symbol} {value : UInt16} :
      i.expression.mode ≠ .relative → i.expression.operand = .label name →
      p.symbol? name = some s → value.toNat = (origin.toNat + s.address) % 0x10000 →
      LinkedOperand p origin externs i value
  /-- Any other label is worth what the externs say. -/
  | imported {name : Bytes} {value : UInt16} :
      i.expression.mode ≠ .relative → i.expression.operand = .label name →
      p.symbol? name = none → externs.lookup name = some value →
      LinkedOperand p origin externs i value
  /-- A branch to a label holds the distance from the byte after it. -/
  | branch {name : Bytes} {s : Symbol} {d : UInt8} :
      i.expression.mode = .relative → i.expression.operand = .label name →
      p.symbol? name = some s → (i.address : Int) + 2 + signedByte d = s.address →
      LinkedOperand p origin externs i d.toUInt16

/-- An expression has one operand in an image. -/
theorem LinkedOperand.unique {v w : UInt16} (hv : LinkedOperand p origin externs i v)
    (hw : LinkedOperand p origin externs i w) : v = w := by
  -- the kind of operand, the mode and the symbol table leave one rule for both values
  rcases hv with hop | hop | ⟨hmode, hop, hsym, hval⟩ | ⟨hmode, hop, hsym, hval⟩ |
      ⟨hmode, hop, hsym, hval⟩ <;>
    rcases hw with hop' | hop' | ⟨hmode', hop', hsym', hval'⟩ | ⟨hmode', hop', hsym', hval'⟩ |
      ⟨hmode', hop', hsym', hval'⟩ <;>
    cases hop.symm.trans hop'
  case none.none | number.number => rfl
  case declared.declared =>
    cases hsym.symm.trans hsym'
    exact UInt16.toNat_inj.mp (hval.trans hval'.symm)
  case imported.imported => exact Option.some.inj (hval.symm.trans hval')
  case branch.branch =>
    cases hsym.symm.trans hsym'
    rw [signedByte_injective (Int.add_left_cancel (hval.trans hval'.symm))]
  case declared.imported | imported.declared => cases hsym.symm.trans hsym'
  case declared.branch | imported.branch => exact absurd hmode' hmode
  case branch.declared | branch.imported => exact absurd hmode hmode'

/-- The patch of a relocation that is no branch encodes the value of its
symbol, which fits the operand. -/
theorem patchBytes_eq_operandBytes {r : Relocation} {mode : Mode} {value : UInt16} {bytes : Bytes}
    (hkind : r.kind = .ofMode mode) (hmode : mode ≠ .relative) (hlen : mode.operandLength ≠ 0)
    (h : patchBytes origin r value = .ok bytes) :
    value.toNat < 256 ^ mode.operandLength ∧ bytes = operandBytes mode (.number value) := by
  have hlt : value.toNat < 256 ^ 2 := value.toNat_lt
  unfold patchBytes at h
  cases mode <;> simp only [hkind, RelocationKind.ofMode] at h
  case accumulator => exact absurd rfl hlen
  case implied => exact absurd rfl hlen
  case relative => exact absurd rfl hmode
  case absolute | absoluteX | absoluteY | absoluteIndirect =>
    cases h
    exact ⟨hlt, rfl⟩
  -- the modes with an operand of one byte
  all_goals
    split at h
    · next hle =>
      cases h
      refine ⟨?_, rfl⟩
      rw [UInt16.le_iff_toNat_le] at hle
      exact Nat.lt_succ_of_le hle
    · cases h

/-- The patch of a label operand encodes the linked operand. -/
theorem Program.patchOf_linkedOperand (hp : p.WellFormed) (hraw : p.rawBytes = .ok raw)
    (hfit : origin.toNat + p.size ≤ addressSpace) (hi : i ∈ p.code.toList) {r : Relocation}
    (hr : r ∈ p.relocations) (hri : r.Records i) {bytes : Bytes}
    (h : patchOf origin p.symbolMap externs raw.length r = .ok bytes) :
    ∃ value, LinkedOperand p origin externs i value ∧
      value.toNat < 256 ^ i.expression.mode.operandLength ∧
      bytes = operandBytes i.expression.mode (.number value) := by
  by_cases hmode : i.expression.mode = .relative
  · have hkind : r.kind = .relative := by
      rw [hri.kind]
      exact RelocationKind.ofMode_eq_relative_iff.mpr hmode
    obtain ⟨s, d, hs, hd, hat⟩ := rawBytes_branch hp hraw hi hri hkind
    obtain ⟨d', hat', hbelow, hpast⟩ := patchOf_branch hp hraw hfit externs hr hkind
    rw [hat] at hat'
    cases hat'
    have hbytes : bytes = [d] := by
      by_cases htop : p.PastTop origin r
      · obtain ⟨distance, herr⟩ := hpast htop
        rw [h] at herr
        cases herr
      · rw [hbelow htop] at h
        cases h
        rfl
    refine ⟨d.toUInt16, .branch hmode hri.symbol hs (signedByte_of_displacement hd), ?_, ?_⟩
    · rw [hmode, UInt8.toNat_toUInt16]
      exact d.toNat_lt
    · rw [hmode, hbytes]
      show [d] = [Word.lo d.toUInt16]
      rw [lo_toUInt16]
  · obtain ⟨value, hvalue, -, hbytes⟩ := patchOf_eq_ok_iff.mp h
    have hlen : i.expression.mode.operandLength ≠ 0 := by
      rw [← hri.width]
      exact Nat.ne_of_gt r.kind.width_pos
    refine ⟨value, ?_, patchBytes_eq_operandBytes hri.kind hmode hlen hbytes⟩
    rcases hs : p.symbol? r.symbol with - | s
    · rw [resolve?_of_symbol?_none hs] at hvalue
      exact .imported hmode hri.symbol hs hvalue
    · rw [resolve?_of_symbol? hs] at hvalue
      cases hvalue
      exact .declared hmode hri.symbol hs (toNat_origin_add origin s.address)

theorem operandBytes_relative {v : Value} (h : v.isLabel = false) :
    operandBytes .relative v = [Word.lo v.numberPart] := by
  rcases v with - | n | name | n
  · rfl
  · rfl
  · cases h
  · rfl

/-- An operand that is no label is emitted as it is after linking. -/
theorem Program.emit_linkedOperand (origin : UInt16) (externs : SymbolMap)
    (henc : i.expression.Encodable) (hlabel : i.expression.operand.isLabel = false)
    {opcode : UInt8} {operand : Bytes} (h : p.emit i = .ok (opcode :: operand)) :
    ∃ value, LinkedOperand p origin externs i value ∧
      value.toNat < 256 ^ i.expression.mode.operandLength ∧
      operand = operandBytes i.expression.mode (.number value) := by
  have hfits := henc.fits
  have hoperand : operand = operandBytes i.expression.mode i.expression.operand := by
    obtain ⟨opcode', -, ⟨hmode, d, hd, hbytes⟩ | ⟨-, hbytes⟩⟩ := emit_eq_ok_iff.mp h
    · -- a branch with a literal holds its displacement already
      obtain ⟨-, rfl⟩ := List.cons.inj hbytes
      rw [hmode, operandBytes_relative hlabel]
      unfold branchByte at hd
      split at hd
      · next name hname =>
        rw [hname] at hlabel
        cases hlabel
      · cases hd
        rfl
    · exact (List.cons.inj hbytes).2
  rcases hvalue : i.expression.operand with - | n | name | n <;>
    rw [hvalue] at hfits hoperand hlabel
  · have hzero : i.expression.mode.operandLength = 0 := hfits
    refine ⟨0, .none hvalue, by rw [hzero]; decide, ?_⟩
    have hnil : ∀ v, operandBytes i.expression.mode v = [] := fun v =>
      List.eq_nil_of_length_eq_zero (by rw [length_operandBytes, hzero])
    rw [hoperand, hnil, hnil]
  · exact ⟨n, .number hvalue, hfits.2, hoperand⟩
  · cases hlabel
  · cases hfits

/-! ### The image at an expression -/

theorem prefix_drop_of_getElem? {opcode : UInt8} {operand : Bytes} {a : Nat}
    (hop : image[a]? = some opcode)
    (hoperand : ∀ k < operand.length, image[a + 1 + k]? = operand[k]?) :
    opcode :: operand <+: image.drop a := by
  rw [List.prefix_iff_getElem?]
  intro k hk
  rw [List.getElem?_drop]
  cases k with
  | zero => exact hop
  | succ k =>
    have hk' : k < operand.length := Nat.lt_of_succ_lt_succ hk
    have hnext : a + (k + 1) = a + 1 + k := by omega
    rw [hnext, hoperand k hk', List.getElem?_eq_getElem hk']
    rfl

/-- No slot meets the operand of an expression without a label. -/
theorem Program.not_covers_operand (hp : p.WellFormed) (hi : i ∈ p.code.toList)
    (hlabel : i.expression.operand.isLabel = false) {r : Relocation} (hr : r ∈ p.relocations)
    {k : Nat} (hk : k < i.expression.mode.operandLength) : ¬ r.Covers (i.address + 1 + k) := by
  obtain ⟨j, hj, hrj⟩ := exists_records hp hr
  rintro ⟨hlow, hhigh⟩
  rw [hrj.slot_end] at hhigh
  rw [hrj.offset] at hlow
  have hsize : i.expression.size = i.expression.mode.operandLength + 1 := rfl
  rcases hp.laidOut.eq_or_disjoint hi hj with rfl | hdisj | hdisj
  · rw [hrj.symbol] at hlabel
    cases hlabel
  · omega
  · omega

/-- **Every expression stands in the image, encoded with its linked
operand.** -/
theorem Program.image_operand (hp : p.WellFormed) (hraw : p.rawBytes = .ok raw)
    (hfit : origin.toNat + p.size ≤ addressSpace) (hlink : p.link origin externs = .ok image)
    (hi : i ∈ p.code.toList) :
    ∃ opcode value, i.expression.opcode? = some opcode ∧ LinkedOperand p origin externs i value ∧
      value.toNat < 256 ^ i.expression.mode.operandLength ∧
      opcode :: operandBytes i.expression.mode (.number value) <+: image.drop i.address := by
  obtain ⟨opcode, emitted, hop, hemit, hopcode, hoperand⟩ := rawBytes_operand hp hraw hi
  have hhead : image[i.address]? = some opcode := by
    rw [image_frame hraw hlink, hopcode]
    intro r hr
    obtain ⟨j, hj, hrj⟩ := exists_records hp hr
    exact hrj.not_covers_address hp.laidOut hj hi
  rcases hlabel : relocation? i with - | r
  · have hno := relocation?_eq_none_iff.mp hlabel
    obtain ⟨value, hvalue, hlt, rfl⟩ :=
      emit_linkedOperand origin externs (hp.encodable i hi) hno hemit
    refine ⟨opcode, value, hop, hvalue, hlt, prefix_drop_of_getElem? hhead ?_⟩
    intro k hk
    rw [length_operandBytes] at hk
    rw [image_frame hraw hlink fun r hr => not_covers_operand hp hi hno hr hk]
    exact hoperand k hk
  · have hri := relocation?_records hp hi hlabel
    have hr : r ∈ p.relocations := List.mem_filterMap.mpr ⟨i, hi, hlabel⟩
    obtain ⟨bytes, hpatch, hslot⟩ := image_slot hp hraw hlink hr
    obtain ⟨value, hvalue, hlt, rfl⟩ := patchOf_linkedOperand hp hraw hfit hi hr hri hpatch
    refine ⟨opcode, value, hop, hvalue, hlt, prefix_drop_of_getElem? hhead ?_⟩
    intro k hk
    rw [length_operandBytes, ← hri.width] at hk
    rw [← hri.offset, hslot (r.offset.toNat + k) ⟨by omega, by omega⟩, Nat.add_sub_cancel_left]

/-! ### The image as a program -/

/-- An instruction that an expression has become in an image linked at an
origin. -/
structure DecodesTo (p : Program) (origin : UInt16) (externs : SymbolMap) (i : Placed)
    (inst : Instruction) : Prop where
  address : inst.address.toNat = origin.toNat + i.address
  mnemonic : inst.mnemonic = i.expression.mnemonic
  mode : inst.mode = i.expression.mode
  operand : LinkedOperand p origin externs i inst.operand
  /-- The whole value is in the operand, also where that is one byte. -/
  fits : inst.operand.toNat < 256 ^ inst.mode.operandLength

theorem Program.fetch?_image (hp : p.WellFormed) (hraw : p.rawBytes = .ok raw)
    (hfit : origin.toNat + p.size ≤ addressSpace) (hlink : p.link origin externs = .ok image)
    (hi : i ∈ p.code.toList) :
    ∃ inst, Instruction.fetch? (origin + i.address.toUInt16) (image.drop i.address) = some inst ∧
      DecodesTo p origin externs i inst := by
  obtain ⟨opcode, value, hop, hvalue, hlt, hpre⟩ := image_operand hp hraw hfit hlink hi
  refine ⟨⟨origin + i.address.toUInt16, i.expression.mnemonic, i.expression.mode, value,
    opcode :: operandBytes i.expression.mode (.number value)⟩,
    Instruction.fetch?_eq_some_iff.mpr ⟨rfl, hlt, opcode, hop, rfl, hpre⟩,
    ⟨?_, rfl, rfl, hvalue, hlt⟩⟩
  -- an expression starts before the end of the section, so its address does not wrap
  have hend := (hp.laidOut.bounds hi).2
  have hsize : 0 < i.expression.size := Nat.succ_pos _
  rw [toNat_origin_add]
  exact Nat.mod_eq_of_lt (by omega)

/-- **The linked image of a built program decodes to the program.**  It has
the size of the section; at the address of every expression stands that
expression with its linked operand; and decoding the image from its start goes
through exactly these instructions. -/
theorem build_link_decodes {nodes : List Node} {p : Program} (hbuild : build nodes = .ok p)
    {origin : UInt16} {externs : SymbolMap} {image : Bytes}
    (hlink : p.link origin externs = .ok image) :
    image.length = p.size ∧
    (∀ i ∈ p.code.toList, ∃ inst,
      Instruction.fetch? (origin + i.address.toUInt16) (image.drop i.address) = some inst ∧
        DecodesTo p origin externs i inst) ∧
    ∃ insts, fetchAll? origin image = some insts ∧
      List.Forall₂ (DecodesTo p origin externs) p.code.toList insts := by
  have hp := build_wellFormed hbuild
  obtain ⟨raw, hraw, hfit, -⟩ := Program.link_eq_ok_iff.mp hlink
  have hrawLen := Program.length_rawBytes hp hraw
  rw [hrawLen] at hfit
  have hlen : image.length = p.size := (Program.length_image hraw hlink).trans hrawLen
  have hfetch := fun i hi => Program.fetch?_image hp hraw hfit hlink (i := i) hi
  refine ⟨hlen, hfetch, ?_⟩
  have hall := fetchAll?_of_laidOut (R := DecodesTo p origin externs) origin hp.laidOut hlen ?_
  · rw [List.drop_zero] at hall
    have hzero : origin + (0 : Nat).toUInt16 = origin := UInt16.add_zero origin
    rw [hzero] at hall
    exact hall
  · intro i hi
    obtain ⟨inst, hinst, hdec⟩ := hfetch i hi
    exact ⟨inst, hinst, hdec.mode, hdec⟩

/-- A declared label that wraps, an extern in one byte, a backward branch and
literals, at the top of the address space. -/
theorem build_link_decodes_wrapping :
    ∃ p, build
      [.instruction 1 [ascii "loop"] (ascii "LDA") (some ⟨.immediate, ascii "port", 0, ascii "#port"⟩),
       .instruction 2 [] (ascii "STA") (some ⟨.indexed, ascii "$0400", 0x58, ascii "$0400,X"⟩),
       .instruction 3 [] (ascii "BNE") (some ⟨.bare, ascii "loop", 0, ascii "loop"⟩),
       .instruction 4 [] (ascii "JMP") (some ⟨.bare, ascii "done", 0, ascii "done"⟩),
       .label 5 [ascii "done"]] = .ok p ∧
      p.link 0xFFF6 [(ascii "port", 0x0012)] =
        .ok [0xA9, 0x12, 0x9D, 0x00, 0x04, 0xD0, 0xF9, 0x4C, 0x00, 0x00] ∧
      ∃ insts, fetchAll? 0xFFF6 [0xA9, 0x12, 0x9D, 0x00, 0x04, 0xD0, 0xF9, 0x4C, 0x00, 0x00] =
        some insts ∧
        List.Forall₂ (DecodesTo p 0xFFF6 [(ascii "port", 0x0012)]) p.code.toList insts := by
  have hbuild : build
      [.instruction 1 [ascii "loop"] (ascii "LDA") (some ⟨.immediate, ascii "port", 0, ascii "#port"⟩),
       .instruction 2 [] (ascii "STA") (some ⟨.indexed, ascii "$0400", 0x58, ascii "$0400,X"⟩),
       .instruction 3 [] (ascii "BNE") (some ⟨.bare, ascii "loop", 0, ascii "loop"⟩),
       .instruction 4 [] (ascii "JMP") (some ⟨.bare, ascii "done", 0, ascii "done"⟩),
       .label 5 [ascii "done"]] =
      .ok ⟨#[⟨0, .lda, .immediate, .label (ascii "port"), 1⟩,
        ⟨2, .sta, .absoluteX, .number 0x0400, 2⟩, ⟨5, .bne, .relative, .label (ascii "loop"), 3⟩,
        ⟨7, .jmp, .absolute, .label (ascii "done"), 4⟩],
        #[⟨ascii "loop", 0, some 0, 1⟩, ⟨ascii "done", 10, none, 5⟩], 10⟩ := by
    decide +kernel
  have hlink : Program.link ⟨#[⟨0, .lda, .immediate, .label (ascii "port"), 1⟩,
        ⟨2, .sta, .absoluteX, .number 0x0400, 2⟩, ⟨5, .bne, .relative, .label (ascii "loop"), 3⟩,
        ⟨7, .jmp, .absolute, .label (ascii "done"), 4⟩],
        #[⟨ascii "loop", 0, some 0, 1⟩, ⟨ascii "done", 10, none, 5⟩], 10⟩ 0xFFF6
        [(ascii "port", 0x0012)] =
      .ok [0xA9, 0x12, 0x9D, 0x00, 0x04, 0xD0, 0xF9, 0x4C, 0x00, 0x00] := by
    decide +kernel
  exact ⟨_, hbuild, hlink, (build_link_decodes hbuild hlink).2.2⟩

end Mos6502
