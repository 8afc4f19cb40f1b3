/-
Mos6502/Proofs/OpcodeMap.lean

The opcode map read in both directions.  The table has no two rows with the
same byte and no two with the same mnemonic and mode, so encoding and decoding
invert each other.  A mnemonic that branches has the relative mode and no
other, and only shifts work on the accumulator.  Each of these facts is one
evaluation over the table; nothing else here or later evaluates it.
-/
import Mos6502.Opcode

namespace Mos6502.Opcode

/-! ### Rows -/

theorem decode?_byte_of_mem : ∀ row ∈ table, decode? row.byte = some row := by
  decide +kernel

theorem encode?_of_mem : ∀ row ∈ table, encode? row.mnemonic row.mode = some row.byte := by
  decide +kernel

theorem surface_of_mem : ∀ row ∈ table, row.mnemonic.isBranch = (row.mode == .relative) ∧
    (row.mode.operandLength = 0 → row.mnemonic.isShift = (row.mode == .accumulator)) := by
  decide +kernel

theorem mem_table_of_decode? {byte : UInt8} {row : Opcode} (h : decode? byte = some row) :
    row ∈ table ∧ row.byte = byte :=
  ⟨List.mem_of_find?_eq_some h, by simpa using List.find?_some h⟩

theorem mem_table_of_encode? {mnemonic : Mnemonic} {mode : Mode} {byte : UInt8}
    (h : encode? mnemonic mode = some byte) : ⟨mnemonic, mode, byte⟩ ∈ table := by
  obtain ⟨row, hrow, rfl⟩ := Option.map_eq_some_iff.mp h
  have hkey := List.find?_some hrow
  simp only [Bool.and_eq_true, beq_iff_eq] at hkey
  obtain ⟨rfl, rfl⟩ := hkey
  exact List.mem_of_find?_eq_some hrow

/-! ### The two directions -/

/-- Decoding inverts encoding. -/
theorem decode?_of_encode? {mnemonic : Mnemonic} {mode : Mode} {byte : UInt8}
    (h : encode? mnemonic mode = some byte) : decode? byte = some ⟨mnemonic, mode, byte⟩ :=
  decode?_byte_of_mem _ (mem_table_of_encode? h)

/-- Encoding inverts decoding. -/
theorem encode?_of_decode? {byte : UInt8} {row : Opcode} (h : decode? byte = some row) :
    encode? row.mnemonic row.mode = some byte := by
  obtain ⟨hmem, rfl⟩ := mem_table_of_decode? h
  exact encode?_of_mem row hmem

/-! ### Modes of a mnemonic -/

theorem mem_table_of_supports {mnemonic : Mnemonic} {mode : Mode}
    (h : supports mnemonic mode = true) : ∃ byte, ⟨mnemonic, mode, byte⟩ ∈ table := by
  obtain ⟨byte, hbyte⟩ := Option.isSome_iff_exists.mp h
  exact ⟨byte, mem_table_of_encode? hbyte⟩

/-- The relative mode is that of the branches. -/
theorem isBranch_of_supports {mnemonic : Mnemonic} {mode : Mode}
    (h : supports mnemonic mode = true) : mnemonic.isBranch = (mode == .relative) := by
  obtain ⟨byte, hmem⟩ := mem_table_of_supports h
  exact (surface_of_mem _ hmem).1

/-- Of the modes without an operand, a shift has that of the accumulator and
every other mnemonic the implied one. -/
theorem isShift_of_supports {mnemonic : Mnemonic} {mode : Mode}
    (h : supports mnemonic mode = true) (hmode : mode.operandLength = 0) :
    mnemonic.isShift = (mode == .accumulator) := by
  obtain ⟨byte, hmem⟩ := mem_table_of_supports h
  exact (surface_of_mem _ hmem).2 hmode

end Mos6502.Opcode
