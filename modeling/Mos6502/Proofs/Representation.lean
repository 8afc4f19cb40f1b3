/-
Mos6502/Proofs/Representation.lean

What a built program records, against the nodes it was built from.

* Addresses are running sums of the sizes (`LaidOut.address_eq_sum`).
* Labels are declared late: those on a line of their own wait for the next
  instruction.  Declared and waiting ones together are at every moment the
  labels of the nodes read so far (`Builder.names`, `Builder.run_names`), so
  at the end nothing is lost and the order is that of the text.
* A label is declared at the cursor, and the cursor never moves back
  (`Builder.run_ordered`).

`Program.Represents` collects these with what the layout and the placement of
labels have already given.  Symbol addresses are natural numbers in the
program and words in every table made from it; below the top of the address
space the two are the same.
-/
import Mathlib.Algebra.GroupWithZero.Nat
import Mos6502.Proofs.Placement

namespace Mos6502

/-! ### Running sums -/

namespace LaidOut

variable {a z : Nat} {code : List Placed}

/-- An expression stands behind the sizes of those before it. -/
theorem address_eq_sum (h : LaidOut a code z) {k : Nat} {i : Placed} (hk : code[k]? = some i) :
    i.address = a + ((code.take k).map fun j => j.expression.size).sum := by
  induction h generalizing k with
  | nil => cases hk
  | @cons a z e rest _ ih =>
    cases k with
    | zero =>
      cases hk
      simp
    | succ k =>
      rw [ih hk, List.take_succ_cons, List.map_cons, List.sum_cons, Nat.add_assoc]

theorem end_eq_sum (h : LaidOut a code z) :
    z = a + (code.map fun j => j.expression.size).sum := by
  induction h with
  | nil => simp
  | cons _ ih => rw [ih, List.map_cons, List.sum_cons, Nat.add_assoc]

/-- No two expressions share an address. -/
theorem eq_of_address_eq (h : LaidOut a code z) {i j : Placed} (hi : i ∈ code) (hj : j ∈ code)
    (haddr : i.address = j.address) : i = j := by
  have hsize : ∀ e : Expression, e.size ≠ 0 := fun e => by simp [Expression.size, Mode.size]
  have hi_pos := hsize i.expression
  have hj_pos := hsize j.expression
  rcases h.eq_or_disjoint hi hj with heq | hdisj | hdisj
  · exact heq
  · omega
  · omega

end LaidOut

/-! ### Labels in the order of the text -/

namespace Builder

variable {b b' : Builder} {node : Node} {nodes : List Node}

/-- The labels read so far: those declared, then those that wait. -/
def names (b : Builder) : List Bytes :=
  b.symbols.toList.map Symbol.name ++ b.pending.toList.map PendingLabel.name

theorem map_name_pendingOf (line : Int) (labels : List Bytes) :
    (pendingOf line labels).map PendingLabel.name = labels := by
  simp [pendingOf, Function.comp_def]

theorem map_name_declared (address : Nat) (index : Option Nat) (labels : List PendingLabel) :
    (labels.map (declared address index)).map Symbol.name = labels.map PendingLabel.name := by
  simp [declared, Function.comp_def]

/-- A step reads the labels of its node, declared or not. -/
theorem step_names (hb : b.Valid) (h : b.step node = .ok b') :
    b'.names = b.names ++ node.labels := by
  rcases step_cases h with ⟨-, e, e', symbols, -, -, hsymbols, rfl⟩ | ⟨-, rfl⟩
  · -- all that waited is declared now, and the node's own labels after it
    obtain ⟨-, -, rfl⟩ := (defineAll_eq_ok_iff hb.nodup).mp hsymbols
    simp only [names, Array.toList_append, List.map_append, map_name_declared, map_name_pendingOf]
    simp
  · simp [names, map_name_pendingOf]

/-- A run reads the labels of its nodes. -/
theorem run_names (hb : b.Valid) (h : b.run nodes = .ok b') :
    b'.names = b.names ++ nodes.flatMap Node.labels := by
  induction nodes generalizing b with
  | nil =>
    cases h
    simp
  | cons node rest ih =>
    rw [run, List.foldlM_cons] at h
    obtain ⟨mid, hstep, hrest⟩ := bind_eq_ok_iff.mp h
    rw [ih (step_valid hb hstep) hrest, step_names hb hstep, List.flatMap_cons, List.append_assoc]

/-- At the end all labels that were read are declared, in their order. -/
theorem labels_of_finish (hb : b.Valid) {p : Program} (h : b.finish = .ok p) :
    p.labels = b.names := by
  obtain ⟨-, -, rfl⟩ := (finish_eq_ok_iff hb).mp h
  show (b.symbols ++ (b.pending.toList.map (declared b.cursor none)).toArray).toList.map
    Symbol.name = _
  rw [Array.toList_append, List.map_append, map_name_declared, names]

/-! ### Labels in the order of their addresses -/

/-- A table of symbols whose addresses do not decrease. -/
def Ordered (symbols : Array Symbol) : Prop :=
  symbols.toList.Pairwise fun s s' => s.address ≤ s'.address

/-- Labels declared at or behind all others keep the order. -/
theorem defineAll_ordered {address : Nat} {index : Option Nat} {symbols symbols' : Array Symbol}
    {labels : List PendingLabel} (hnodup : (symbols.toList.map Symbol.name).Nodup)
    (hle : ∀ s ∈ symbols.toList, s.address ≤ address) (hordered : Ordered symbols)
    (h : defineAll address index symbols labels = .ok symbols') : Ordered symbols' := by
  obtain ⟨-, -, rfl⟩ := (defineAll_eq_ok_iff hnodup).mp h
  unfold Ordered
  rw [Array.toList_append, List.pairwise_append]
  refine ⟨hordered, ?_, ?_⟩
  · -- the new ones share one address
    apply List.pairwise_map.mpr
    apply List.pairwise_of_forall
    intro label label'
    exact Nat.le_refl address
  · intro s hs s' hs'
    obtain ⟨label, -, rfl⟩ := List.mem_map.mp hs'
    exact hle s hs

theorem step_ordered (hb : b.Valid) (hordered : Ordered b.symbols) (h : b.step node = .ok b') :
    Ordered b'.symbols := by
  rcases step_cases h with ⟨-, e, e', symbols, -, -, hsymbols, rfl⟩ | ⟨-, rfl⟩
  · exact defineAll_ordered hb.nodup hb.symbol_le hordered hsymbols
  · exact hordered

theorem run_ordered (hb : b.Valid) (hordered : Ordered b.symbols) (h : b.run nodes = .ok b') :
    Ordered b'.symbols := by
  have hinv : b'.Valid ∧ Ordered b'.symbols :=
    foldlM_invariant (P := fun b => b.Valid ∧ Ordered b.symbols)
      (fun _ hs hstep => ⟨step_valid hs.1 hstep, step_ordered hs.1 hs.2 hstep⟩) ⟨hb, hordered⟩ h
  exact hinv.2

end Builder

/-! ### Tables made from a program -/

namespace Program

variable {p : Program}

/-- The keys of the symbol table are the labels. -/
theorem isSome_symbol?_iff {name : Bytes} : (p.symbol? name).isSome ↔ name ∈ p.labels := by
  simp [symbol?, labels]

/-- Below the top of the address space an address is the word made from it. -/
theorem WellFormed.toNat_toUInt16 (hp : p.WellFormed) {s : Symbol} (hs : s ∈ p.symbols.toList) :
    s.address.toUInt16.toNat = s.address := by
  have hlt := hp.symbol_lt s hs
  rw [addressSpace] at hlt
  rw [Nat.toUInt16, UInt16.toNat_ofNat']
  omega

theorem WellFormed.lookup?_iff (hp : p.WellFormed) {name : Bytes} {w : UInt16} :
    p.lookup? name = some w ↔ ∃ s, p.symbol? name = some s ∧ w.toNat = s.address := by
  rw [lookup?, Option.map_eq_some_iff]
  constructor
  · rintro ⟨s, hs, rfl⟩
    exact ⟨s, hs, hp.toNat_toUInt16 (mem_of_symbol? hs).1⟩
  · rintro ⟨s, hs, hw⟩
    refine ⟨s, hs, ?_⟩
    apply UInt16.toNat_inj.mp
    rw [hp.toNat_toUInt16 (mem_of_symbol? hs).1, hw]

theorem WellFormed.symbolMap_eq (hp : p.WellFormed) :
    (p.symbolMap.map fun entry => (entry.1, entry.2.toNat)) =
      p.symbols.toList.map fun s => (s.name, s.address) := by
  rw [symbolMap, List.map_map]
  apply List.map_congr_left
  intro s hs
  show (s.name, s.address.toUInt16.toNat) = (s.name, s.address)
  rw [hp.toNat_toUInt16 hs]

theorem definition?_eq_some_iff {name : Bytes} {e : Expression} :
    p.definition? name = some e ↔ ∃ s k i, p.symbol? name = some s ∧ s.index = some k ∧
      p.code[k]? = some i ∧ i.expression = e := by
  simp [definition?, Option.bind_eq_some_iff]

end Program

/-! ### Programs -/

/-- What a program records of the nodes it was built from. -/
structure Program.Represents (p : Program) (nodes : List Node) : Prop where
  /-- An expression stands at the sum of the sizes before it. -/
  address_eq : ∀ k i, p.code[k]? = some i →
    i.address = ((p.expressions.take k).map Expression.size).sum
  size_eq : p.size = (p.expressions.map Expression.size).sum
  size_le : p.size ≤ 0x10000
  /-- The labels are those of the nodes before the first end node, in their
  order. -/
  labels_eq : p.labels = (nodes.takeWhile fun node => !node.isFinish).flatMap Node.labels
  nodup : p.labels.Nodup
  keys : ∀ name, (p.symbol? name).isSome ↔ name ∈ p.labels
  /-- A symbol has the address of the expression at its index, or no index and
  the address behind the last expression. -/
  stands : ∀ s ∈ p.symbols.toList,
    (∃ k i, s.index = some k ∧ p.code[k]? = some i ∧ i.address = s.address) ∨
      (s.index = none ∧ s.address = p.size)
  symbol_lt : ∀ s ∈ p.symbols.toList, s.address < 0x10000
  /-- Words lose nothing of an address, asked for by name or in a table. -/
  lookup_iff : ∀ name w, p.lookup? name = some w ↔
    ∃ s, p.symbol? name = some s ∧ w.toNat = s.address
  symbolMap_eq : (p.symbolMap.map fun entry => (entry.1, entry.2.toNat)) =
    p.symbols.toList.map fun s => (s.name, s.address)
  ordered : p.symbols.toList.Pairwise fun s s' => s.address ≤ s'.address
  /-- The definition of a label is the expression at its address: one stands
  there, and no other. -/
  definition : ∀ name e, p.definition? name = some e →
    ∃ w, p.lookup? name = some w ∧
      (∃ i ∈ p.code.toList, i.address = w.toNat ∧ i.expression = e) ∧
      ∀ j ∈ p.code.toList, j.address = w.toNat → j.expression = e
  /-- Only an unknown name and a label behind the last expression have no
  definition. -/
  no_definition : ∀ name, p.definition? name = none ↔
    ∀ s, p.symbol? name = some s → s.index = none
  no_target : ∀ e ∈ p.expressions, ∀ n, e.operand ≠ .target n

/-- The labels of a built program are those of its nodes, and their addresses
do not decrease. -/
theorem build_labels {nodes : List Node} {p : Program} (h : build nodes = .ok p) :
    p.labels = (nodes.takeWhile fun node => !node.isFinish).flatMap Node.labels ∧
      Builder.Ordered p.symbols := by
  obtain ⟨b, hvalid, hrun, hfinish⟩ := build_eq_ok_iff.mp h
  have hnames := Builder.run_names Builder.start_valid hrun
  have hordered := Builder.run_ordered Builder.start_valid List.Pairwise.nil hrun
  refine ⟨(Builder.labels_of_finish hvalid hfinish).trans hnames, ?_⟩
  obtain ⟨symbols, hsymbols, hfinish⟩ := bind_eq_ok_iff.mp hfinish
  cases hfinish
  exact Builder.defineAll_ordered hvalid.nodup hvalid.symbol_le hordered hsymbols

/-- **Every built program represents its nodes.** -/
theorem build_represents {nodes : List Node} {p : Program} (h : build nodes = .ok p) :
    p.Represents nodes := by
  have hp := build_wellFormed h
  have hstands := build_inFront h
  obtain ⟨hlabels, hordered⟩ := build_labels h
  -- sums over the placed expressions are sums over the expressions
  have hsizes : ∀ code : List Placed,
      (code.map Placed.expression).map Expression.size = code.map fun j => j.expression.size := by
    intro code
    rw [List.map_map]
    rfl
  -- an index of the symbol table is one of the code
  have hindex : ∀ name s k, p.symbol? name = some s → s.index = some k →
      ∃ i, p.code[k]? = some i ∧ i.address = s.address := by
    intro name s k hs hk
    rcases hstands s (Program.mem_of_symbol? hs).1 with ⟨k', i, hk', hi, haddr⟩ | ⟨hnone, -⟩
    · rw [hk] at hk'
      cases hk'
      exact ⟨i, hi, haddr⟩
    · rw [hk] at hnone
      cases hnone
  refine ⟨?_, ?_, hp.size_le, hlabels, hp.nodup, fun _ => Program.isSome_symbol?_iff, hstands,
    hp.symbol_lt, fun _ _ => hp.lookup?_iff, hp.symbolMap_eq, hordered, ?_, ?_, ?_⟩
  · intro k i hk
    rw [← Array.getElem?_toList] at hk
    rw [hp.laidOut.address_eq_sum hk, Program.expressions, ← List.map_take, hsizes, Nat.zero_add]
  · rw [Program.expressions, hsizes]
    have := hp.laidOut.end_eq_sum
    omega
  · intro name e he
    obtain ⟨s, k, i, hs, hk, hi, rfl⟩ := Program.definition?_eq_some_iff.mp he
    obtain ⟨i', hi', haddr⟩ := hindex name s k hs hk
    rw [hi] at hi'
    cases hi'
    have hword := hp.toNat_toUInt16 (Program.mem_of_symbol? hs).1
    refine ⟨s.address.toUInt16, ?_, ⟨i, Program.mem_code hi, haddr.trans hword.symm, rfl⟩, ?_⟩
    · rw [Program.lookup?, hs]
      rfl
    · intro j hj hjaddr
      rw [hp.laidOut.eq_of_address_eq hj (Program.mem_code hi)
        (hjaddr.trans (hword.trans haddr.symm))]
  · intro name
    constructor
    · intro hnone s hs
      rcases hk : s.index with - | k
      · rfl
      · obtain ⟨i, hi, -⟩ := hindex name s k hs hk
        rw [Program.definition?_eq_some_iff.mpr ⟨s, k, i, hs, hk, hi, rfl⟩] at hnone
        cases hnone
    · intro hnone
      apply Option.eq_none_iff_forall_not_mem.mpr
      intro e he
      obtain ⟨s, k, -, hs, hk, -⟩ := Program.definition?_eq_some_iff.mp he
      rw [hnone s hs] at hk
      cases hk
  · intro e he n hn
    obtain ⟨i, hi, rfl⟩ := List.mem_map.mp he
    have hfits := (hp.encodable i hi).fits
    rw [hn] at hfits
    exact hfits

/-- Labels that wait across lines, one of the instruction's own, a branch to a
literal, a label behind the last instruction, and one after the end. -/
theorem build_represents_waiting :
    ∃ p, build
      [.label 1 [ascii "a", ascii "b"],
       .other 2,
       .label 3 [ascii "c"],
       .instruction 4 [ascii "d"] (ascii "JMP") (some ⟨.bare, ascii "e", 0, ascii "e"⟩),
       .instruction 5 [] (ascii "BNE") (some ⟨.bare, ascii "$0000", 0, ascii "$0000"⟩),
       .label 6 [ascii "e"], .finish 7, .label 8 [ascii "a"]] = .ok p ∧
      p.labels = [ascii "a", ascii "b", ascii "c", ascii "d", ascii "e"] ∧ p.size = 5 ∧
      p.Represents
        [.label 1 [ascii "a", ascii "b"],
         .other 2,
         .label 3 [ascii "c"],
         .instruction 4 [ascii "d"] (ascii "JMP") (some ⟨.bare, ascii "e", 0, ascii "e"⟩),
         .instruction 5 [] (ascii "BNE") (some ⟨.bare, ascii "$0000", 0, ascii "$0000"⟩),
         .label 6 [ascii "e"], .finish 7, .label 8 [ascii "a"]] := by
  have h : build
      [.label 1 [ascii "a", ascii "b"],
       .other 2,
       .label 3 [ascii "c"],
       .instruction 4 [ascii "d"] (ascii "JMP") (some ⟨.bare, ascii "e", 0, ascii "e"⟩),
       .instruction 5 [] (ascii "BNE") (some ⟨.bare, ascii "$0000", 0, ascii "$0000"⟩),
       .label 6 [ascii "e"], .finish 7, .label 8 [ascii "a"]] =
      .ok ⟨#[⟨0, .jmp, .absolute, .label (ascii "e"), 4⟩,
        ⟨3, .bne, .relative, .number 0xFB, 5⟩],
        #[⟨ascii "a", 0, some 0, 1⟩, ⟨ascii "b", 0, some 0, 1⟩, ⟨ascii "c", 0, some 0, 3⟩,
          ⟨ascii "d", 0, some 0, 4⟩, ⟨ascii "e", 5, none, 6⟩], 5⟩ := by
    decide +kernel
  exact ⟨_, h, by decide +kernel, rfl, build_represents h⟩

end Mos6502
