/-
Mos6502/Proofs/Destinations.lean

Destinations written as literals.  A literal of three or four digits is an
address for `JMP` and stays one: the linked instruction goes there.  For a
branch it becomes a distance while the program is laid out, counted from the
branch's address in the section, and nothing is left for the linker to adjust.
So the branch goes to the place with that offset in the section, and the
literal is its address only in a section at origin zero
(`assemble_link_literal`).
-/
import Mos6502.Proofs.Placement

namespace Mos6502

/-- The mnemonic of an instruction and the literal of three or four digits that
is its operand. -/
def Node.longLiteral? : Node → Option (Mnemonic × UInt16)
  | .instruction _ _ name (some ⟨.bare, 0x24 :: digits, _, _⟩) =>
    if digits.length = 3 ∨ digits.length = 4 then do
      let mnemonic ← Mnemonic.ofName? name
      let n ← Numeral.readHex? digits
      return (mnemonic, n.toUInt16)
    else none
  | _ => none

variable {node : Node} {m : Mnemonic} {t : UInt16}

/-! ### Expressions -/

theorem OperandText.classify_long {digits : Bytes} (hlen : digits.length = 3 ∨ digits.length = 4)
    {n : Nat} (hn : Numeral.readHex? digits = some n) :
    classify (0x24 :: digits) = .ok (.long n.toUInt16) := by
  have hdenotes := Numeral.readHex?_eq_some_iff.mp hn
  have hword := toNat_toUInt16_of_denotes (by omega) hdenotes
  exact classify_eq_ok_iff.mpr (.long hlen (hword.symm ▸ hdenotes))

/-- An instruction with a long literal selects its mode by whether it is a
branch. -/
theorem Node.selectOptional_longLiteral (h : node.longLiteral? = some (m, t)) :
    ∃ line labels name operand, node = .instruction line labels name operand ∧
      Mnemonic.ofName? name = some m ∧ selectOptional m operand =
        .ok (if m.isBranch then (.relative, .target t) else (.absolute, .number t)) := by
  unfold longLiteral? at h
  split at h
  · next line labels name digits index raw =>
    split at h
    · next hlen =>
      obtain ⟨m', hm', h⟩ := Option.bind_eq_some_iff.mp h
      obtain ⟨n, hn, h⟩ := Option.bind_eq_some_iff.mp h
      cases h
      refine ⟨line, labels, name, _, rfl, hm', ?_⟩
      -- a literal is not the letter that stands for the accumulator
      have hacc : isAccumulator (0x24 :: digits) = false := rfl
      rw [selectOptional, select, hacc, Bool.and_false, if_neg Bool.false_ne_true,
        OperandText.classify_long hlen hn]
      rfl
    · cases h
  · cases h

theorem Expression.ofNode_eq_ok {line : Int} {labels : List Bytes} {name : Bytes}
    {operand : Option Operand} {mode : Mode} {value : Value} {e : Expression}
    (hname : Mnemonic.ofName? name = some m)
    (hselect : selectOptional m operand = .ok (mode, value))
    (h : Expression.ofNode (.instruction line labels name operand) = .ok e) :
    e = ⟨m, mode, value, line⟩ := by
  obtain ⟨_, _, _, hnode, hname', hselect', -⟩ := Expression.ofNode_eq_ok_iff.mp h
  cases hnode
  cases hname.symm.trans hname'
  cases hselect.symm.trans hselect'
  rfl

/-- What a branch with a long literal becomes: the destination turns into its
distance from the address in the section. -/
theorem Node.BecomesAt.branch {i : Placed} (h : node.BecomesAt i)
    (hlit : node.longLiteral? = some (m, t)) (hbranch : m.isBranch = true) :
    i.expression.mnemonic = m ∧ i.expression.mode = .relative ∧
      ∃ d : UInt8, i.expression.operand = .number d.toUInt16 ∧
        (i.address : Int) + 2 + signedByte d = t.toNat := by
  obtain ⟨e, hnode, hresolve⟩ := h
  obtain ⟨line, labels, name, operand, rfl, hname, hselect⟩ := node.selectOptional_longLiteral hlit
  rw [if_pos hbranch] at hselect
  cases Expression.ofNode_eq_ok hname hselect hnode
  rw [Builder.resolveTarget] at hresolve
  dsimp only at hresolve
  split at hresolve
  · next d hd =>
    rw [← Except.ok.inj hresolve]
    exact ⟨rfl, rfl, d, rfl, signedByte_of_displacement hd⟩
  · cases hresolve

/-- What any other instruction with a long literal becomes: the literal is its
operand. -/
theorem Node.BecomesAt.absolute {i : Placed} (h : node.BecomesAt i)
    (hlit : node.longLiteral? = some (m, t)) (hbranch : m.isBranch = false) :
    i.expression.mnemonic = m ∧ i.expression.mode = .absolute ∧
      i.expression.operand = .number t := by
  obtain ⟨e, hnode, hresolve⟩ := h
  obtain ⟨line, labels, name, operand, rfl, hname, hselect⟩ := node.selectOptional_longLiteral hlit
  rw [hbranch, if_neg Bool.false_ne_true] at hselect
  cases Expression.ofNode_eq_ok hname hselect hnode
  rw [← Except.ok.inj hresolve]
  exact ⟨rfl, rfl, rfl⟩

/-! ### Images -/

namespace Program.Linked

variable {p : Program} {origin : UInt16} {externs : SymbolMap} {image : Bytes} {i : Placed}

/-- A literal operand stands in the image as it is. -/
theorem fetch?_number (h : p.Linked origin externs image) (hi : i ∈ p.code.toList) {n : UInt16}
    (hop : i.expression.operand = .number n) :
    ∃ inst, Instruction.fetch? (origin + i.address.toUInt16) (image.drop i.address) = some inst ∧
      DecodesTo p origin externs i inst ∧ inst.operand = n := by
  obtain ⟨inst, hfetch, hdec⟩ := h.decodes i hi
  exact ⟨inst, hfetch, hdec, hdec.operand.unique (.number hop)⟩

/-- A `JMP` to a literal goes there. -/
theorem target?_jmp (h : p.Linked origin externs image) (hi : i ∈ p.code.toList) {t : UInt16}
    (hmode : i.expression.mode = .absolute) (hop : i.expression.operand = .number t) :
    ∃ inst, Instruction.fetch? (origin + i.address.toUInt16) (image.drop i.address) = some inst ∧
      inst.mnemonic = i.expression.mnemonic ∧
      (i.expression.mnemonic = .jmp → inst.target? = some t) := by
  obtain ⟨inst, hfetch, hdec, hoperand⟩ := h.fetch?_number hi hop
  refine ⟨inst, hfetch, hdec.mnemonic, ?_⟩
  intro hjmp
  rw [Instruction.target?, hdec.mnemonic, hdec.mode, hmode, hjmp, hoperand]
  rfl

/-- A branch with a distance in its section goes as far in the image. -/
theorem target?_branch (h : p.Linked origin externs image) (hi : i ∈ p.code.toList) {t : UInt16}
    {d : UInt8} (hmode : i.expression.mode = .relative)
    (hop : i.expression.operand = .number d.toUInt16)
    (hdist : (i.address : Int) + 2 + signedByte d = t.toNat) :
    ∃ inst, Instruction.fetch? (origin + i.address.toUInt16) (image.drop i.address) = some inst ∧
      inst.mnemonic = i.expression.mnemonic ∧ inst.target? = some (origin + t) ∧
      image[i.address + 1]? = some d := by
  obtain ⟨inst, hfetch, hdec, hoperand⟩ := h.fetch?_number hi hop
  obtain ⟨-, -, opcode, -, hbytes, tail, htail⟩ := Instruction.fetch?_eq_some_iff.mp hfetch
  have hbytes' : inst.bytes = [opcode, d] := by
    rw [hbytes, hdec.mode, hmode, hoperand]
    show [opcode, Word.lo d.toUInt16] = [opcode, d]
    rw [lo_toUInt16]
  refine ⟨inst, hfetch, hdec.mnemonic, ?_, ?_⟩
  · -- address and destination have moved by the origin, modulo the address space
    have haddr := hdec.address
    have hword : wordOfInt (inst.address.toNat + 2 + signedByte d) = origin + t := by
      apply UInt16.toNat_inj.mp
      rw [wordOfInt, UInt16.toNat_ofNat', UInt16.toNat_add]
      omega
    rw [Instruction.target?, hdec.mode, hmode, hoperand, hbytes']
    show some (wordOfInt (inst.address.toNat + 2 + signedByte (Word.lo d.toUInt16))) = _
    rw [lo_toUInt16, hword]
  · rw [hbytes'] at htail
    rw [← List.getElem?_drop, ← htail]
    rfl

end Program.Linked

/-- **Where literals lead.**  In the linked image of a text, take an instruction
whose operand is a literal of three or four digits.  A `JMP` goes to the literal.
A branch goes to the place with this offset from the origin: its displacement
leads there from its own address, so it reaches the address that the literal
names exactly if the origin is zero. -/
theorem assemble_link_literal {source : Bytes} {p : Program} (hassemble : assemble source = .ok p)
    {origin : UInt16} {externs : SymbolMap} {image : Bytes}
    (hlink : p.link origin externs = .ok image) :
    ∃ nodes, parse source = .ok nodes ∧
      ∀ (k : Nat) (node : Node) (m : Mnemonic) (t : UInt16),
        (instructionsOf nodes)[k]? = some node → node.longLiteral? = some (m, t) →
        ∃ (i : Placed) (inst : Instruction), p.code[k]? = some i ∧
          Instruction.fetch? (origin + i.address.toUInt16) (image.drop i.address) = some inst ∧
          inst.mnemonic = m ∧
          (m = .jmp → inst.target? = some t) ∧
          (m.isBranch = true → inst.target? = some (origin + t) ∧
            ∃ d, image[i.address + 1]? = some d ∧ (i.address : Int) + 2 + signedByte d = t.toNat ∧
              ((origin.toNat : Int) + i.address + 2 + signedByte d = t.toNat ↔ origin = 0)) := by
  unfold assemble at hassemble
  split at hassemble
  · cases hassemble
  · next nodes hparse =>
    split at hassemble
    · cases hassemble
    · next hbuild =>
      cases hassemble
      have h := build_linked hbuild hlink
      refine ⟨nodes, hparse, ?_⟩
      intro k node m t hk hlit
      obtain ⟨i, hi, hnode⟩ := exists_becomesAt hbuild hk
      have hmem := Program.mem_code hi
      cases hbranch : m.isBranch with
      | false =>
        obtain ⟨rfl, hmode, hop⟩ := hnode.absolute hlit hbranch
        obtain ⟨inst, hfetch, hmn, htarget⟩ := h.target?_jmp hmem hmode hop
        exact ⟨i, inst, hi, hfetch, hmn, htarget, nofun⟩
      | true =>
        obtain ⟨rfl, hmode, d, hop, hdist⟩ := hnode.branch hlit hbranch
        obtain ⟨inst, hfetch, hmn, htarget, hd⟩ := h.target?_branch hmem hmode hop hdist
        refine ⟨i, inst, hi, hfetch, hmn, ?_, fun _ => ⟨htarget, d, hd, hdist, ?_⟩⟩
        · -- `JMP` is no branch
          intro hjmp
          rw [hjmp] at hbranch
          cases hbranch
        · rw [← UInt16.toNat_inj, UInt16.toNat_zero]
          omega

/-- A loop and a jump out of it, both written with literals. -/
theorem assemble_link_literal_loop :
    ∃ p, assemble (ascii "loop: DEX\n BNE $0000\n JMP $0012") = .ok p ∧
      p.link 0x8000 [] = .ok [0xCA, 0xD0, 0xFD, 0x4C, 0x12, 0x00] ∧
      (∃ (i : Placed) (inst : Instruction), p.code[1]? = some i ∧
        Instruction.fetch? (0x8000 + i.address.toUInt16)
          (([0xCA, 0xD0, 0xFD, 0x4C, 0x12, 0x00] : Bytes).drop i.address) = some inst ∧
        inst.mnemonic = .bne ∧ inst.target? = some 0x8000) ∧
      ∃ (i : Placed) (inst : Instruction), p.code[2]? = some i ∧
        Instruction.fetch? (0x8000 + i.address.toUInt16)
          (([0xCA, 0xD0, 0xFD, 0x4C, 0x12, 0x00] : Bytes).drop i.address) = some inst ∧
        inst.mnemonic = .jmp ∧ inst.target? = some 0x0012 := by
  have hassemble : assemble (ascii "loop: DEX\n BNE $0000\n JMP $0012") =
      .ok ⟨#[⟨0, .dex, .implied, .none, 1⟩, ⟨1, .bne, .relative, .number 0xFD, 2⟩,
        ⟨3, .jmp, .absolute, .number 0x0012, 3⟩], #[⟨ascii "loop", 0, some 0, 1⟩], 6⟩ := by
    decide +kernel
  have hlink : Program.link ⟨#[⟨0, .dex, .implied, .none, 1⟩, ⟨1, .bne, .relative, .number 0xFD, 2⟩,
      ⟨3, .jmp, .absolute, .number 0x0012, 3⟩], #[⟨ascii "loop", 0, some 0, 1⟩], 6⟩ 0x8000 [] =
      .ok [0xCA, 0xD0, 0xFD, 0x4C, 0x12, 0x00] := by
    decide +kernel
  have hbne : ((parse (ascii "loop: DEX\n BNE $0000\n JMP $0012")).toOption.bind
      fun nodes => (instructionsOf nodes)[1]?.bind Node.longLiteral?) = some (.bne, 0x0000) := by
    decide +kernel
  have hjmp : ((parse (ascii "loop: DEX\n BNE $0000\n JMP $0012")).toOption.bind
      fun nodes => (instructionsOf nodes)[2]?.bind Node.longLiteral?) = some (.jmp, 0x0012) := by
    decide +kernel
  obtain ⟨nodes, hparse, hliteral⟩ := assemble_link_literal hassemble hlink
  rw [hparse, Except.toOption, Option.bind_some] at hbne hjmp
  obtain ⟨branch, hbranch, hbne⟩ := Option.bind_eq_some_iff.mp hbne
  obtain ⟨jump, hjump, hjmp⟩ := Option.bind_eq_some_iff.mp hjmp
  obtain ⟨i, inst, hi, hfetch, hmn, -, htarget⟩ := hliteral 1 branch .bne 0 hbranch hbne
  obtain ⟨j, inst', hj, hfetch', hmn', htarget', -⟩ := hliteral 2 jump .jmp 0x0012 hjump hjmp
  exact ⟨_, hassemble, hlink, ⟨i, inst, hi, hfetch, hmn, (htarget rfl).1⟩,
    j, inst', hj, hfetch', hmn', htarget' rfl⟩

/-- Away from origin zero a branch misses the address that its literal names:
from $0010 this one goes to $0022. -/
theorem link_branch_literal_misses :
    ∃ p, assemble (ascii "BNE $0012") = .ok p ∧ p.link 0x0010 [] = .ok [0xD0, 0x10] ∧
      (Instruction.fetch? 0x0010 [0xD0, 0x10]).bind Instruction.target? = some 0x0022 := by
  refine ⟨⟨#[⟨0, .bne, .relative, .number 0x10, 1⟩], #[], 2⟩, ?_, ?_, ?_⟩
  · decide +kernel
  · decide +kernel
  · decide +kernel

end Mos6502
