/-
Mos6502/Disassembly/Reach.lean

Which offsets of an image hold code.  Code starts at offset zero and at every
named address inside the image.  From an instruction control goes on to the
next one, unless the instruction is terminal, and to its destination if that
lies inside the image.

`Reachable` states this as a relation.  `mark` computes it with a list of
offsets still to be visited.  A visit shortens that list, or it marks an offset
that was not marked and adds at most two, so three for every unmarked offset
and one for every offset in the list is a measure that goes down.
-/
import Mos6502.Disassembly.Instruction
import Mos6502.Program.Basic

namespace Mos6502

/-- The offset of an address inside an image of `length` bytes at an
origin. -/
def offsetOf? (origin : UInt16) (length : Nat) (address : UInt16) : Option Nat :=
  if origin ≤ address && address.toNat - origin.toNat < length then
    some (address.toNat - origin.toNat)
  else none

/-- The offset inside the image that an instruction may jump to. -/
def Instruction.targetOffset? (origin : UInt16) (length : Nat) (i : Instruction) : Option Nat :=
  i.target?.bind (offsetOf? origin length)

/-- The offsets where control may go from an instruction at an offset. -/
def successors (origin : UInt16) (length offset : Nat) (i : Instruction) : List Nat :=
  (if i.mnemonic.isTerminal then [] else [offset + i.bytes.length]) ++
    (i.targetOffset? origin length).toList

/-- Control goes on and to a destination at most. -/
theorem length_successors_le (origin : UInt16) (length offset : Nat) (i : Instruction) :
    (successors origin length offset i).length ≤ 2 := by
  have htarget : (i.targetOffset? origin length).toList.length ≤ 1 := by
    cases i.targetOffset? origin length <;> simp
  rw [successors, List.length_append]
  split
  · simp only [List.length_nil]
    omega
  · simp only [List.length_singleton]
    omega

/-- The offsets where code may start: zero and the named addresses inside the
image. -/
def entries (origin : UInt16) (length : Nat) (symbols : SymbolMap) : List Nat :=
  0 :: symbols.filterMap fun (_, address) => offsetOf? origin length address

/-- The offsets that control reaches, each with an instruction at it. -/
inductive Reachable (origin : UInt16) (s : Sweep) (starts : List Nat) : Nat → Prop where
  /-- An instruction where code starts. -/
  | start {o : Nat} {i : Instruction} :
      o ∈ starts → s.at? o = some i → Reachable origin s starts o
  /-- An instruction where control goes from one that is reached. -/
  | step {o o' : Nat} {i j : Instruction} :
      Reachable origin s starts o → s.at? o = some i →
      o' ∈ successors origin s.size o i → s.at? o' = some j →
      Reachable origin s starts o'

/-- Marking an offset that was not marked leaves fewer unmarked ones. -/
theorem count_set_lt {marked : Array Bool} {o : Nat} (h : o < marked.size)
    (hfalse : marked[o] = false) : (marked.set o true h).count false < marked.count false := by
  have hpos : 0 < marked.count false := by
    rw [Array.count_pos_iff]
    exact hfalse ▸ Array.getElem_mem h
  have hset : (marked.set o true h).count false = marked.count false - 1 := by
    rw [Array.count_set h, hfalse]
    rfl
  omega

/-- Marks every offset that control reaches from the offsets still to be
visited. -/
def mark (origin : UInt16) (s : Sweep) (marked : Array Bool) : List Nat → Array Bool
  | [] => marked
  | o :: rest =>
    match s.at? o with
    | none => mark origin s marked rest
    | some i =>
      if h : o < marked.size then
        if hm : marked[o] then mark origin s marked rest
        else mark origin s (marked.set o true h) (successors origin s.size o i ++ rest)
      else mark origin s marked rest
termination_by pending => 3 * marked.count false + pending.length
decreasing_by
  · simp
  · simp
  · have hcount := count_set_lt h (by simpa using hm)
    have hnew := length_successors_le origin s.size o i
    simp only [List.length_append, List.length_cons]
    omega
  · simp

/-- The offsets of a sweep that hold code, as seen from where code starts. -/
def markAll (origin : UInt16) (s : Sweep) (symbols : SymbolMap) : Array Bool :=
  mark origin s (Array.replicate s.size false) (entries origin s.size symbols)

end Mos6502
