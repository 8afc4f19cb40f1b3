/-
Mos6502/Displacement.lean

Branch displacements.  A branch at address `a` is two bytes long, and its
second byte is the signed distance from `a + 2` to the destination.  The range
is checked on integers, so that nothing wraps before it.

The assembler computes a displacement with `displacement`.  The linker and the
disassembler start from other numbers, the offset of a slot and the bytes of an
instruction, and share with it only how a distance is put into a byte and read
from one.
-/
import Mos6502.Bytes

namespace Mos6502

/-- The distance from the byte after a branch to its destination. -/
def branchDistance (target address : Int) : Int :=
  target - (address + 2)

/-- Whether a distance fits in a signed byte. -/
def fitsBranch (distance : Int) : Bool :=
  -128 ≤ distance && distance ≤ 127

/-- A distance as a byte in two's complement. -/
def branchByte (distance : Int) : UInt8 :=
  UInt8.ofNat (distance % 256).toNat

/-- The displacement byte of a branch, or the distance that does not fit. -/
def displacement (target address : Int) : Except Int UInt8 :=
  let distance := branchDistance target address
  if fitsBranch distance then .ok (branchByte distance) else .error distance

/-- A byte read as a signed number. -/
def signedByte (b : UInt8) : Int :=
  if b < 0x80 then b.toNat else (b.toNat : Int) - 256

/-- A distance that fits is read back from its byte. -/
theorem signedByte_branchByte {distance : Int} (h : fitsBranch distance = true) :
    signedByte (branchByte distance) = distance := by
  simp only [fitsBranch, Bool.and_eq_true, decide_eq_true_eq] at h
  have hn : (branchByte distance).toNat = (distance % 256).toNat := by
    simp only [branchByte, UInt8.toNat_ofNat']
    omega
  simp only [signedByte, UInt8.lt_iff_toNat_lt, hn, UInt8.reduceToNat]
  split <;> omega

end Mos6502
