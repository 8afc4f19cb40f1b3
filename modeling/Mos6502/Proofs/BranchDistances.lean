/-
Mos6502/Proofs/BranchDistances.lean

One displacement, computed three times.  The assembler counts from the address
of a branch plus two, the linker from the slot of its displacement byte plus
one, and the disassembler from the address of an instruction plus its number of
bytes, modulo the address space.  For a branch of two bytes these are the same
place:

* `displacement_eq_ok_iff_signedByte`: the assembler finds the byte that is
  read as the distance, if there is one;
* `applyRelocation_branch`: the linker writes that byte into the slot, or
  reports the distance that the assembler reports;
* `Instruction.target?_of_displacement`: the disassembler goes back to the
  destination, and nothing wraps on the way.
-/
import Mos6502.Proofs.Linking
import Mos6502.Proofs.Rendering

namespace Mos6502

/-! ### The assembler -/

/-- A displacement is the one byte that is read as the distance. -/
theorem displacement_eq_ok_iff_signedByte {target address : Int} {d : UInt8} :
    displacement target address = .ok d ↔
      (-128 ≤ target - (address + 2) ∧ target - (address + 2) ≤ 127) ∧
        signedByte d = target - (address + 2) := by
  rw [displacement_eq_ok_iff]
  refine and_congr_right fun hreach => ?_
  have hread := signedByte_branchByte (fitsBranch_iff.mpr hreach)
  constructor
  · rintro rfl
    exact hread
  · intro hd
    exact signedByte_injective (hd.trans hread.symm)

/-! ### The linker -/

section Linker

variable {origin target address : UInt16} {r : Relocation}

/-- The slot of a branch is one behind its address, so the linker counts from
two behind it. -/
theorem Relocation.distance_of_slot (hslot : origin.toNat + r.offset.toNat = address.toNat + 1) :
    r.distance origin target = (target.toNat : Int) - (address.toNat + 2) := by
  rw [distance]
  omega

/-- The patch of a branch is its displacement. -/
theorem patchBytes_eq_displacement (hkind : r.kind = .relative)
    (hslot : origin.toNat + r.offset.toNat = address.toNat + 1) :
    patchBytes origin r target =
      ((displacement target.toNat address.toNat).mapError fun distance =>
        LinkError.symbol (doesNotReach r distance)).map fun d => [d] := by
  rw [patchBytes_branch hkind, Relocation.distance_of_slot hslot]
  rcases hd : displacement target.toNat address.toNat with distance | d
  · obtain ⟨hfar, rfl⟩ := displacement_eq_error_iff.mp hd
    exact if_neg hfar
  · obtain ⟨hreach, rfl⟩ := displacement_eq_ok_iff.mp hd
    exact if_pos hreach

/-- **A branch relocation writes the displacement into its slot**, or reports
the distance that is too far. -/
theorem applyRelocation_branch {symbols externs : SymbolMap} {image : Array UInt8}
    (hkind : r.kind = .relative) (hinside : r.offset.toNat < image.size)
    (hslot : origin.toNat + r.offset.toNat = address.toNat + 1)
    (hvalue : resolve? origin symbols externs r.symbol = some target) :
    applyRelocation origin symbols externs image r =
      ((displacement target.toNat address.toNat).mapError fun distance =>
        LinkError.symbol (doesNotReach r distance)).map
          (image.setIfInBounds r.offset.toNat) := by
  have hwidth : ¬ image.size < r.offset.toNat + r.kind.width := by
    rw [hkind]
    exact Nat.not_lt.mpr hinside
  have hpatch : patchOf origin symbols externs image.size r = patchBytes origin r target := by
    simp only [patchOf, hvalue, if_neg hwidth]
  rw [applyRelocation_eq, hpatch, patchBytes_eq_displacement hkind hslot]
  rcases displacement target.toNat address.toNat with distance | d <;> rfl

end Linker

/-! ### The disassembler -/

/-- **A displacement leads back to its destination.** -/
theorem Instruction.target?_of_displacement {target : UInt16} {i : Instruction} {d : UInt8}
    (hd : displacement target.toNat i.address.toNat = .ok d) (hmode : i.mode = .relative)
    (hlength : i.bytes.length = 2) (hoperand : Word.lo i.operand = d) :
    i.target? = some target := by
  have hback := signedByte_of_displacement hd
  rw [target?_relative hmode, hlength, hoperand]
  show some (wordOfInt (i.address.toNat + 2 + signedByte d)) = some target
  rw [hback]
  apply congrArg some
  apply UInt16.toNat_inj.mp
  apply Int.natCast_inj.mp
  -- the destination is an address, so the remainder is the number itself
  rw [toNat_wordOfInt_emod]
  exact Int.emod_eq_of_lt (Int.natCast_nonneg _) (Int.ofNat_lt.mpr target.toNat_lt)

/-- **Assembler, linker and disassembler agree on branches.**  For a branch at
one address to another:

* the assembler has a displacement exactly if the distance from the byte after
  the branch is between -128 and 127, and it is the byte read as that distance;
* a branch relocation with that value, its slot inside the image one behind the
  address, is applied exactly if there is a displacement, and changes the slot
  to it; otherwise it reports the same distance;
* an instruction of two bytes at the address, with the displacement as operand,
  goes to the destination. -/
theorem branch_displacements_agree (target address : UInt16) :
    (∀ d, displacement target.toNat address.toNat = .ok d ↔
      (-128 ≤ (target.toNat : Int) - (address.toNat + 2) ∧
        (target.toNat : Int) - (address.toNat + 2) ≤ 127) ∧
      signedByte d = (target.toNat : Int) - (address.toNat + 2)) ∧
    (∀ (origin : UInt16) (symbols externs : SymbolMap) (image : Array UInt8) (r : Relocation),
      r.kind = .relative → r.offset.toNat < image.size →
      origin.toNat + r.offset.toNat = address.toNat + 1 →
      resolve? origin symbols externs r.symbol = some target →
      (∀ image', applyRelocation origin symbols externs image r = .ok image' ↔
        ∃ d, displacement target.toNat address.toNat = .ok d ∧
          image' = image.setIfInBounds r.offset.toNat d) ∧
      ∀ e, applyRelocation origin symbols externs image r = .error e ↔
        ∃ distance, displacement target.toNat address.toNat = .error distance ∧
          e = .symbol (doesNotReach r distance)) ∧
    ∀ d, displacement target.toNat address.toNat = .ok d →
      ∀ (mnemonic : Mnemonic) (bytes : Bytes), bytes.length = 2 →
        (Instruction.mk address mnemonic .relative d.toUInt16 bytes).target? = some target := by
  refine ⟨fun d => displacement_eq_ok_iff_signedByte, ?_, ?_⟩
  · intro origin symbols externs image r hkind hinside hslot hvalue
    rw [applyRelocation_branch hkind hinside hslot hvalue]
    rcases displacement target.toNat address.toNat with distance | d
    · simp [Except.mapError, Except.map, eq_comm]
    · simp [Except.mapError, Except.map, eq_comm]
  · intro d hd mnemonic bytes hbytes
    exact Instruction.target?_of_displacement hd rfl hbytes (lo_toUInt16 d)

/-- The longest branch back, to the bottom of the address space, and the longest
branch ahead, to a label at the top of it. -/
theorem branch_displacements_agree_longest :
    (displacement 0 0x007E = .ok 0x80 ∧
      applyRelocation 0x007E [] [(ascii "low", 0)] #[0xD0, 0xFF] ⟨ascii "low", 1, .relative⟩ =
        .ok #[0xD0, 0x80] ∧
      (Instruction.mk 0x007E .bne .relative 0x80 [0xD0, 0x80]).target? = some 0) ∧
    displacement 0xFFFF 0xFF7E = .ok 0x7F ∧
      applyRelocation 0xFF7E [(ascii "top", 0x81)] [] #[0xD0, 0xFF] ⟨ascii "top", 1, .relative⟩ =
        .ok #[0xD0, 0x7F] ∧
      (Instruction.mk 0xFF7E .bne .relative 0x7F [0xD0, 0x7F]).target? = some 0xFFFF := by
  refine ⟨?_, ?_⟩
  · obtain ⟨hassembler, hlinker, hback⟩ := branch_displacements_agree 0 0x007E
    have hd := (hassembler 0x80).mpr (by decide)
    obtain ⟨hwritten, -⟩ := hlinker 0x007E [] [(ascii "low", 0)] #[0xD0, 0xFF]
      ⟨ascii "low", 1, .relative⟩ rfl (by decide) (by decide) (by decide +kernel)
    exact ⟨hd, (hwritten _).mpr ⟨0x80, hd, rfl⟩, hback 0x80 hd .bne [0xD0, 0x80] rfl⟩
  · obtain ⟨hassembler, hlinker, hback⟩ := branch_displacements_agree 0xFFFF 0xFF7E
    have hd := (hassembler 0x7F).mpr (by decide)
    obtain ⟨hwritten, -⟩ := hlinker 0xFF7E [(ascii "top", 0x81)] [] #[0xD0, 0xFF]
      ⟨ascii "top", 1, .relative⟩ rfl (by decide) (by decide) (by decide +kernel)
    exact ⟨hd, (hwritten _).mpr ⟨0x7F, hd, rfl⟩, hback 0x7F hd .bne [0xD0, 0x7F] rfl⟩

end Mos6502
