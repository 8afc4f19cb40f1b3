/-
Mos6502/Proofs/Displacement.lean

Branch displacements as intervals.  A displacement exists exactly where the
distance from the byte after the branch lies in `[-128, 127]`, and then it is
the distance in two's complement.  All later proofs use these lemmas and not
the definition.
-/
import Mos6502.Displacement

namespace Mos6502

theorem fitsBranch_iff {distance : Int} :
    fitsBranch distance = true ↔ -128 ≤ distance ∧ distance ≤ 127 := by
  simp [fitsBranch]

theorem displacement_eq_ok_iff {target address : Int} {d : UInt8} :
    displacement target address = .ok d ↔
      (-128 ≤ target - (address + 2) ∧ target - (address + 2) ≤ 127) ∧
        d = branchByte (target - (address + 2)) := by
  rw [← fitsBranch_iff]
  unfold displacement branchDistance
  dsimp only
  split
  · next hfits =>
    constructor
    · intro h
      cases h
      exact ⟨hfits, rfl⟩
    · rintro ⟨-, rfl⟩
      rfl
  · next hfits =>
    constructor
    · intro h
      cases h
    · rintro ⟨hfits', -⟩
      exact absurd hfits' hfits

theorem displacement_eq_error_iff {target address distance : Int} :
    displacement target address = .error distance ↔
      ¬ (-128 ≤ target - (address + 2) ∧ target - (address + 2) ≤ 127) ∧
        distance = target - (address + 2) := by
  rw [← fitsBranch_iff]
  unfold displacement branchDistance
  dsimp only
  split
  · next hfits =>
    constructor
    · intro h
      cases h
    · rintro ⟨hfits', -⟩
      exact absurd hfits hfits'
  · next hfits =>
    constructor
    · intro h
      cases h
      exact ⟨hfits, rfl⟩
    · rintro ⟨-, rfl⟩
      rfl

/-- A displacement is read back as the distance it stands for. -/
theorem signedByte_of_displacement {target address : Int} {d : UInt8}
    (h : displacement target address = .ok d) : address + 2 + signedByte d = target := by
  obtain ⟨hfits, rfl⟩ := displacement_eq_ok_iff.mp h
  rw [signedByte_branchByte (fitsBranch_iff.mpr hfits)]
  omega

theorem signedByte_bounds (b : UInt8) : -128 ≤ signedByte b ∧ signedByte b ≤ 127 := by
  have hb := b.toNat_lt
  simp only [signedByte, UInt8.lt_iff_toNat_lt, UInt8.reduceToNat]
  split <;> omega

theorem signedByte_injective {b c : UInt8} (h : signedByte b = signedByte c) : b = c := by
  have hb := b.toNat_lt
  have hc := c.toNat_lt
  simp only [signedByte, UInt8.lt_iff_toNat_lt, UInt8.reduceToNat] at h
  apply UInt8.toNat_inj.mp
  split at h <;> split at h <;> omega

end Mos6502
