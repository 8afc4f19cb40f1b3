/-
Mos6502/Proofs/SymbolOrder.lean

A disassembly does not depend on the order of its table of symbols.  The table
is used in two places, and both see no more of it than the name of every
address, the smallest of those it is given (`SymbolMap.NamesAlike`):

* code starts where an address has a name, and the search marks the same code
  from the same starts, in whatever order it visits them
  (`SymbolMap.NamesAlike.markAll_eq`);
* a label is the name of its address, or made up from the marks alone
  (`Analysis.labelAt?_withSymbols`).

The lines follow from marks and labels (`Analysis.lines_withSymbols`), and the
smallest of some names is the same in any order of them
(`SymbolMap.namesAlike_of_perm`).
-/
import Mos6502.Disassembly.Listing
import Mos6502.Proofs.Labels
import Mos6502.Proofs.Reachability

namespace Mos6502

/-! ### Tables that name addresses alike -/

/-- Two tables that give every address the same name. -/
def SymbolMap.NamesAlike (symbols symbols' : SymbolMap) : Prop :=
  ∀ x, symbols.nameAt? x = symbols'.nameAt? x

namespace SymbolMap

variable {symbols symbols' : SymbolMap} {origin : UInt16}

/-- The smallest name is the same in any order. -/
theorem namesAlike_of_perm (h : symbols.Perm symbols') : symbols.NamesAlike symbols' := by
  intro x
  apply Option.ext
  intro name
  rw [nameAt?_eq_some_iff, nameAt?_eq_some_iff]
  simp only [Smallest, h.mem_iff]

/-- Code starts at the front and at the addresses that have a name. -/
theorem mem_entries_iff_named {length o : Nat} : o ∈ entries origin length symbols ↔
    o = 0 ∨ ∃ x, symbols.nameAt? x ≠ none ∧ offsetOf? origin length x = some o := by
  have hnamed : ∀ x, symbols.nameAt? x ≠ none ↔ ∃ name, (name, x) ∈ symbols := by
    intro x
    rw [Ne, nameAt?_eq_none_iff]
    simp only [not_forall, not_not]
  simp only [entries, List.mem_cons, List.mem_filterMap, Prod.exists, hnamed]
  constructor
  · rintro (hzero | ⟨name, x, hmem, hx⟩)
    · exact .inl hzero
    · exact .inr ⟨x, ⟨name, hmem⟩, hx⟩
  · rintro (hzero | ⟨x, ⟨name, hmem⟩, hx⟩)
    · exact .inl hzero
    · exact .inr ⟨name, x, hmem, hx⟩

theorem NamesAlike.mem_entries (h : symbols.NamesAlike symbols') {length o : Nat} :
    o ∈ entries origin length symbols ↔ o ∈ entries origin length symbols' := by
  rw [mem_entries_iff_named, mem_entries_iff_named]
  simp only [h _]

end SymbolMap

/-! ### Marks -/

/-- More starts reach no less. -/
theorem Reachable.mono {origin : UInt16} {s : Sweep} {starts starts' : List Nat} {o : Nat}
    (h : Reachable origin s starts o) (hsub : ∀ o ∈ starts, o ∈ starts') :
    Reachable origin s starts' o := by
  induction h with
  | start hstart hi => exact .start (hsub _ hstart) hi
  | step _ hi hnext hj ih => exact .step ih hi hnext hj

/-- **The search marks the same code** from tables that name addresses alike. -/
theorem SymbolMap.NamesAlike.markAll_eq {symbols symbols' : SymbolMap}
    (h : symbols.NamesAlike symbols') (origin : UInt16) (s : Sweep) :
    markAll origin s symbols = markAll origin s symbols' := by
  have hsize := (markAll_marking origin s symbols).size
  have hsize' := (markAll_marking origin s symbols').size
  apply Array.ext
  · rw [hsize, hsize']
  intro o ho ho'
  -- a mark is set exactly if control gets there, and there is no third value
  have hmarked : (markAll origin s symbols)[o]? = some true ↔
      (markAll origin s symbols')[o]? = some true := by
    rw [markAll_iff, markAll_iff]
    exact ⟨fun hreach => hreach.mono fun _ => h.mem_entries.mp,
      fun hreach => hreach.mono fun _ => h.mem_entries.mpr⟩
  rw [Array.getElem?_eq_getElem ho, Array.getElem?_eq_getElem ho', Option.some.injEq,
    Option.some.injEq] at hmarked
  exact Bool.eq_iff_iff.mpr hmarked

/-! ### Lines -/

namespace Analysis

/-- An analysis with another table of symbols. -/
def withSymbols (a : Analysis) (symbols : SymbolMap) : Analysis :=
  { a with symbols := symbols }

theorem ofImage_eq_withSymbols {symbols symbols' : SymbolMap} (h : symbols.NamesAlike symbols')
    (origin : UInt16) (code : Bytes) :
    ofImage origin symbols' code = (ofImage origin symbols code).withSymbols symbols' := by
  simp only [ofImage, withSymbols, h.markAll_eq]

section WithSymbols

variable {a : Analysis} {symbols : SymbolMap} (h : a.symbols.NamesAlike symbols)

include h

theorem labelAt?_withSymbols (x : UInt16) : (a.withSymbols symbols).labelAt? x = a.labelAt? x := by
  unfold labelAt?
  rw [h x]
  rfl

theorem declaration_withSymbols (o : Nat) :
    (a.withSymbols symbols).declaration o = a.declaration o := by
  unfold declaration
  rw [labelAt?_withSymbols h]
  rfl

theorem breaksData_withSymbols (o : Nat) :
    (a.withSymbols symbols).breaksData o = a.breaksData o := by
  unfold breaksData
  rw [labelAt?_withSymbols h]
  rfl

theorem dataRun_withSymbols (limit o : Nat) (tail : Bytes) :
    (a.withSymbols symbols).dataRun limit o tail = a.dataRun limit o tail := by
  induction limit generalizing o tail with
  | zero => rw [dataRun, dataRun]
  | succ limit ih =>
    cases tail with
    | nil => rfl
    | cons b rest => rw [dataRun, dataRun, breaksData_withSymbols h, ih]

theorem linesFrom_withSymbols (o : Nat) (rest : Bytes) (acc : Array Line) :
    (a.withSymbols symbols).linesFrom o rest acc = a.linesFrom o rest acc := by
  have hcode : ∀ o, (a.withSymbols symbols).codeAt? o = a.codeAt? o := fun _ => rfl
  fun_induction linesFrom a o rest acc with
  | case1 => rw [linesFrom]
  | case2 o acc b tail acc' i hi more ih =>
    rw [linesFrom]
    simp only [hcode, hi, declaration_withSymbols h]
    exact ih
  | case3 o acc b tail acc' hnone more ih =>
    rw [linesFrom]
    simp only [hcode, hnone, declaration_withSymbols h, dataRun_withSymbols h]
    exact ih

/-- **The lines are the same** for tables that name addresses alike. -/
theorem lines_withSymbols (code : Bytes) : (a.withSymbols symbols).lines code = a.lines code := by
  have hend : (a.withSymbols symbols).endLabel code.length = a.endLabel code.length := by
    unfold endLabel
    rw [h (a.addressOf code.length)]
    rfl
  rw [lines, lines, linesFrom_withSymbols h, hend]

end WithSymbols

end Analysis

/-! ### Texts -/

/-- A disassembly sees of its symbols no more than the name of every address. -/
theorem disassemble_of_namesAlike {symbols symbols' : SymbolMap}
    (h : symbols.NamesAlike symbols') (code : Bytes) (origin : UInt16) (listing : Bool) :
    disassemble code ⟨origin, symbols, listing⟩ = disassemble code ⟨origin, symbols', listing⟩ := by
  have hnames : (Analysis.ofImage origin symbols code).symbols.NamesAlike symbols' := h
  unfold disassemble
  dsimp only
  rw [Analysis.ofImage_eq_withSymbols h, Analysis.lines_withSymbols hnames,
    funext (Analysis.labelAt?_withSymbols hnames)]

/-- **The order of the symbols does not matter.**  Two enumerations of one table,
in which several names may have the same address, give the same text. -/
theorem disassemble_perm {symbols symbols' : SymbolMap} (h : symbols.Perm symbols')
    (code : Bytes) (origin : UInt16) (listing : Bool) :
    disassemble code ⟨origin, symbols, listing⟩ = disassemble code ⟨origin, symbols', listing⟩ :=
  disassemble_of_namesAlike (SymbolMap.namesAlike_of_perm h) code origin listing

/-- A subroutine with two names, of which the smaller one is shown in either
order. -/
theorem disassemble_perm_shared :
    List.Perm [(ascii "zero", 0xC003), (ascii "alpha", 0xC003), (ascii "main", 0xC000)]
        ([(ascii "main", 0xC000), (ascii "alpha", 0xC003), (ascii "zero", 0xC003)] : SymbolMap) ∧
      disassemble [0x20, 0x03, 0xC0, 0x60] ⟨0xC000,
          [(ascii "zero", 0xC003), (ascii "alpha", 0xC003), (ascii "main", 0xC000)], false⟩ =
        .ok (ascii "main:\n    JSR alpha\nalpha:\n    RTS\n") ∧
      disassemble [0x20, 0x03, 0xC0, 0x60] ⟨0xC000,
          [(ascii "main", 0xC000), (ascii "alpha", 0xC003), (ascii "zero", 0xC003)], false⟩ =
        .ok (ascii "main:\n    JSR alpha\nalpha:\n    RTS\n") := by
  have hperm : List.Perm [(ascii "zero", 0xC003), (ascii "alpha", 0xC003), (ascii "main", 0xC000)]
      ([(ascii "main", 0xC000), (ascii "alpha", 0xC003), (ascii "zero", 0xC003)] : SymbolMap) :=
    (List.reverse_perm _).symm
  have htext : disassemble [0x20, 0x03, 0xC0, 0x60] ⟨0xC000,
      [(ascii "zero", 0xC003), (ascii "alpha", 0xC003), (ascii "main", 0xC000)], false⟩ =
      .ok (ascii "main:\n    JSR alpha\nalpha:\n    RTS\n") := by
    decide +kernel
  refine ⟨hperm, htext, ?_⟩
  rw [← disassemble_perm hperm]
  exact htext

end Mos6502
