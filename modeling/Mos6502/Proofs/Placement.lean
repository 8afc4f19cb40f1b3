/-
Mos6502/Proofs/Placement.lean

Where the pass puts what it reads.

* Every instruction before the end node becomes one expression, in order; a
  branch destination given as a literal has been turned into its distance from
  the expression's own address (`Node.BecomesAt`, `build_becomesAt`).
* Every label stands in front of the expression that its entry names, or behind
  the last one (`Symbol.InFront`, `build_inFront`).

Both are read off from what one step can do (`Builder.step_cases`).  Together
with the layout and the decoding of the image they are what is known of a
program that has been linked (`Program.Linked`).
-/
import Mos6502.Proofs.Encoding

namespace Mos6502

/-- The expression that an instruction becomes at its address. -/
def Node.BecomesAt (node : Node) (i : Placed) : Prop :=
  ∃ e, Expression.ofNode node = .ok e ∧ Builder.resolveTarget i.address e = .ok i.expression

/-- The instructions of a list of nodes, up to its end. -/
def instructionsOf (nodes : List Node) : List Node :=
  (nodes.takeWhile fun node => !node.isFinish).filter fun node => node.kind == .instruction

/-- A label in front of the expression that its entry names. -/
def Symbol.InFront (code : Array Placed) (s : Symbol) : Prop :=
  ∃ k i, s.index = some k ∧ code[k]? = some i ∧ i.address = s.address

theorem Symbol.InFront.push {code : Array Placed} {s : Symbol}
    (h : s.InFront code) (j : Placed) : s.InFront (code.push j) := by
  obtain ⟨k, i, hindex, hk, haddr⟩ := h
  refine ⟨k, i, hindex, ?_, haddr⟩
  have hlt := (Array.getElem?_eq_some_iff.mp hk).1
  rw [Array.getElem?_push_lt hlt, ← Array.getElem?_eq_getElem hlt, hk]

namespace Builder

variable {b b' : Builder} {node : Node} {nodes : List Node}

/-- What a step can do: an instruction is placed with the labels that wait and
its own, and any other node only adds its labels to those that wait. -/
theorem step_cases (h : b.step node = .ok b') :
    (node.kind = .instruction ∧ ∃ e e' symbols, Expression.ofNode node = .ok e ∧
      resolveTarget b.cursor e = .ok e' ∧
      defineAll b.cursor (some b.code.size) b.symbols
        (b.pending.toList ++ pendingOf node.line node.labels) = .ok symbols ∧
      b' = ⟨b.code.push ⟨b.cursor, e'⟩, symbols, #[], b.cursor + e'.size⟩) ∨
    (node.kind ≠ .instruction ∧
      b' = { b with pending := b.pending ++ (pendingOf node.line node.labels).toArray }) := by
  unfold step at h
  split at h
  · split at h
    · cases h
    · next e hnode =>
      obtain ⟨e', symbols, he', hsymbols, -, rfl⟩ := place_eq_ok_iff.mp h
      exact .inl ⟨rfl, e, e', symbols, hnode, he', hsymbols, rfl⟩
  · cases h
    exact .inr ⟨NodeKind.noConfusion, rfl⟩
  -- a node that declares nothing adds no labels
  all_goals
    cases h
    exact .inr ⟨NodeKind.noConfusion, by simp [Node.labels, pendingOf]⟩

/-! ### Instructions -/

theorem run_becomesAt (h : b.run nodes = .ok b') :
    ∃ added, b'.code.toList = b.code.toList ++ added ∧
      List.Forall₂ Node.BecomesAt (nodes.filter fun node => node.kind == .instruction) added := by
  induction nodes generalizing b with
  | nil =>
    cases h
    exact ⟨[], by simp, .nil⟩
  | cons node rest ih =>
    rw [run, List.foldlM_cons] at h
    obtain ⟨mid, hstep, hrest⟩ := bind_eq_ok_iff.mp h
    obtain ⟨added, hcode, hadded⟩ := ih hrest
    rcases step_cases hstep with ⟨hkind, e, e', _, hnode, he', -, rfl⟩ | ⟨hkind, rfl⟩
    · refine ⟨⟨b.cursor, e'⟩ :: added, ?_, ?_⟩
      · rw [hcode, Array.toList_push, List.append_assoc, List.singleton_append]
      · rw [List.filter_cons_of_pos (by simpa using hkind)]
        exact .cons ⟨e, hnode, he'⟩ hadded
    · refine ⟨added, hcode, ?_⟩
      rw [List.filter_cons_of_neg (by simpa using hkind)]
      exact hadded

/-! ### Labels -/

/-- Labels are declared in front of the next expression. -/
theorem step_inFront (hb : b.Valid) (hlabels : ∀ s ∈ b.symbols.toList, s.InFront b.code)
    (h : b.step node = .ok b') : ∀ s ∈ b'.symbols.toList, s.InFront b'.code := by
  rcases step_cases h with ⟨-, e, e', symbols, -, -, hsymbols, rfl⟩ | ⟨-, rfl⟩
  · obtain ⟨-, -, rfl⟩ := (defineAll_eq_ok_iff hb.nodup).mp hsymbols
    intro s hs
    rw [Array.toList_append, List.mem_append] at hs
    rcases hs with hs | hs
    · exact (hlabels s hs).push _
    · obtain ⟨label, -, rfl⟩ := List.mem_map.mp hs
      exact ⟨b.code.size, ⟨b.cursor, e'⟩, rfl, Array.getElem?_push_size, rfl⟩
  · exact hlabels

theorem run_inFront (hb : b.Valid) (hlabels : ∀ s ∈ b.symbols.toList, s.InFront b.code)
    (h : b.run nodes = .ok b') : ∀ s ∈ b'.symbols.toList, s.InFront b'.code := by
  have hinv : b'.Valid ∧ ∀ s ∈ b'.symbols.toList, s.InFront b'.code :=
    foldlM_invariant (P := fun b => b.Valid ∧ ∀ s ∈ b.symbols.toList, s.InFront b.code)
      (fun _ hs hstep => ⟨step_valid hs.1 hstep, step_inFront hs.1 hs.2 hstep⟩) ⟨hb, hlabels⟩ h
  exact hinv.2

end Builder

/-! ### Programs -/

/-- **Every instruction becomes one expression**, and they are in order. -/
theorem build_becomesAt {nodes : List Node} {p : Program} (h : build nodes = .ok p) :
    List.Forall₂ Node.BecomesAt (instructionsOf nodes) p.code.toList := by
  obtain ⟨b, hb, hrun, hfinish⟩ := build_eq_ok_iff.mp h
  obtain ⟨-, -, rfl⟩ := (Builder.finish_eq_ok_iff hb).mp hfinish
  obtain ⟨added, hcode, hadded⟩ := Builder.run_becomesAt hrun
  show List.Forall₂ Node.BecomesAt (instructionsOf nodes) b.code.toList
  rw [hcode]
  exact hadded

theorem exists_becomesAt {nodes : List Node} {p : Program} (h : build nodes = .ok p) {k : Nat}
    {node : Node} (hk : (instructionsOf nodes)[k]? = some node) :
    ∃ i, p.code[k]? = some i ∧ node.BecomesAt i := by
  obtain ⟨hlt, rfl⟩ := List.getElem?_eq_some_iff.mp hk
  have hall := build_becomesAt h
  have hlt' : k < p.code.toList.length := by
    rw [← hall.length_eq]
    exact hlt
  refine ⟨p.code.toList[k], ?_, hall.get hlt hlt'⟩
  rw [← Array.getElem?_toList, List.getElem?_eq_getElem hlt']

/-- **Every label stands in front of its expression**, or at the end of the
section. -/
theorem build_inFront {nodes : List Node} {p : Program} (h : build nodes = .ok p) :
    ∀ s ∈ p.symbols.toList, s.InFront p.code ∨ (s.index = none ∧ s.address = p.size) := by
  obtain ⟨b, hb, hrun, hfinish⟩ := build_eq_ok_iff.mp h
  have hlabels := Builder.run_inFront Builder.start_valid (by simp [Builder.start]) hrun
  obtain ⟨-, -, rfl⟩ := (Builder.finish_eq_ok_iff hb).mp hfinish
  intro s hs
  rw [Array.toList_append, List.mem_append] at hs
  rcases hs with hs | hs
  · exact .inl (hlabels s hs)
  · obtain ⟨label, -, rfl⟩ := List.mem_map.mp hs
    exact .inr ⟨rfl, rfl⟩

/-! ### Images -/

theorem Program.mem_code {p : Program} {k : Nat} {i : Placed} (hk : p.code[k]? = some i) :
    i ∈ p.code.toList :=
  Array.mem_toList_iff.mpr (Array.mem_of_getElem? hk)

/-- What is known of a built program and an image linked from it. -/
structure Program.Linked (p : Program) (origin : UInt16) (externs : SymbolMap) (image : Bytes) :
    Prop where
  wellFormed : p.WellFormed
  inFront : ∀ s ∈ p.symbols.toList, s.InFront p.code ∨ (s.index = none ∧ s.address = p.size)
  length : image.length = p.size
  fits : origin.toNat + p.size ≤ addressSpace
  decodes : ∀ i ∈ p.code.toList, ∃ inst,
    Instruction.fetch? (origin + i.address.toUInt16) (image.drop i.address) = some inst ∧
      DecodesTo p origin externs i inst

theorem build_linked {nodes : List Node} {p : Program} (hbuild : build nodes = .ok p)
    {origin : UInt16} {externs : SymbolMap} {image : Bytes}
    (hlink : p.link origin externs = .ok image) : p.Linked origin externs image := by
  have hp := build_wellFormed hbuild
  obtain ⟨raw, hraw, hfit, -⟩ := Program.link_eq_ok_iff.mp hlink
  have hrawLen := Program.length_rawBytes hp hraw
  rw [hrawLen] at hfit
  exact ⟨hp, build_inFront hbuild, (Program.length_image hraw hlink).trans hrawLen, hfit,
    fun i hi => Program.fetch?_image hp hraw hfit hlink hi⟩

end Mos6502
