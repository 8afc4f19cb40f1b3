/-
Mos6502/Proofs/Reachability.lean

Marking finds exactly the code that control reaches.  The state of the search
is the set of marked offsets and the list of offsets still to be visited, and
`Marking` is its invariant:

* only reachable offsets are marked or wait to be visited;
* where code starts and where control goes from a marked offset is settled: it
  holds no instruction, is marked, or waits (`Settled`).

A visit that finds nothing to do takes an offset off the list, any other marks
it and adds its successors; both keep the invariant.  When the list is empty,
the marked offsets contain where code starts and are closed under the steps of
control, so they are the reachable ones (`markAll_iff`).
-/
import Mos6502.Disassembly.Label

namespace Mos6502

/-- An offset that needs no further thought: it holds no instruction, is marked,
or waits to be visited. -/
def Settled (s : Sweep) (marked : Array Bool) (pending : List Nat) (o : Nat) : Prop :=
  s.at? o = none ∨ marked[o]? = some true ∨ o ∈ pending

/-- The invariant of the search. -/
structure Marking (origin : UInt16) (s : Sweep) (starts : List Nat) (marked : Array Bool)
    (pending : List Nat) : Prop where
  size : marked.size = s.size
  sound : ∀ o, marked[o]? = some true → Reachable origin s starts o
  waiting : ∀ o ∈ pending, ∀ i, s.at? o = some i → Reachable origin s starts o
  starts : ∀ o ∈ starts, Settled s marked pending o
  closed : ∀ o i, marked[o]? = some true → s.at? o = some i →
    ∀ o' ∈ successors origin s.size o i, Settled s marked pending o'

variable {origin : UInt16} {s : Sweep} {starts pending : List Nat} {marked : Array Bool} {o : Nat}

theorem Sweep.lt_size_of_at? {i : Instruction} (h : s.at? o = some i) : o < s.size := by
  unfold Sweep.at? at h
  rcases ho : s[o]? with - | entry
  · rw [ho] at h
    cases h
  · exact (Array.getElem?_eq_some_iff.mp ho).1

/-! ### One visit -/

theorem Settled.skip {x : Nat} (h : Settled s marked (o :: pending) x)
    (hskip : s.at? o = none ∨ marked[o]? = some true) : Settled s marked pending x := by
  rcases h with h | h | h
  · exact .inl h
  · exact .inr (.inl h)
  · rcases List.mem_cons.mp h with rfl | h
    · rcases hskip with hskip | hskip
      · exact .inl hskip
      · exact .inr (.inl hskip)
    · exact .inr (.inr h)

theorem Settled.visit {x : Nat} (h : Settled s marked (o :: pending) x) (ho : o < marked.size)
    (more : List Nat) : Settled s (marked.set o true ho) (more ++ pending) x := by
  by_cases hx : o = x
  · right
    left
    subst hx
    exact Array.getElem?_set_self ho
  · rcases h with h | h | h
    · exact .inl h
    · right
      left
      rw [Array.getElem?_set_ne ho hx]
      exact h
    · right
      right
      rcases List.mem_cons.mp h with rfl | h
      · exact absurd rfl hx
      · exact List.mem_append_right more h

namespace Marking

/-- A visit of an offset that holds nothing or is marked. -/
theorem skip (h : Marking origin s starts marked (o :: pending))
    (hskip : s.at? o = none ∨ marked[o]? = some true) : Marking origin s starts marked pending where
  size := h.size
  sound := h.sound
  waiting x hx := h.waiting x (List.mem_cons_of_mem o hx)
  starts x hx := (h.starts x hx).skip hskip
  closed x i hx hi y hy := (h.closed x i hx hi y hy).skip hskip

/-- A visit of an offset that is marked by it. -/
theorem visit (h : Marking origin s starts marked (o :: pending)) {i : Instruction}
    (hi : s.at? o = some i) (ho : o < marked.size) :
    Marking origin s starts (marked.set o true ho) (successors origin s.size o i ++ pending) := by
  have hreach : Reachable origin s starts o := h.waiting o List.mem_cons_self i hi
  refine ⟨?_, ?_, ?_, ?_, ?_⟩
  · rw [Array.size_set]
    exact h.size
  · intro x hx
    by_cases hox : o = x
    · rw [← hox]
      exact hreach
    · rw [Array.getElem?_set_ne ho hox] at hx
      exact h.sound x hx
  · intro x hx j hj
    rcases List.mem_append.mp hx with hx | hx
    · exact .step hreach hi hx hj
    · exact h.waiting x (List.mem_cons_of_mem o hx) j hj
  · intro x hx
    exact (h.starts x hx).visit ho _
  · intro x j hx hj y hy
    by_cases hox : o = x
    · -- the successors of the offset itself wait
      rw [← hox] at hj hy
      rw [hi] at hj
      cases hj
      exact .inr (.inr (List.mem_append_left pending hy))
    · rw [Array.getElem?_set_ne ho hox] at hx
      exact (h.closed x j hx hj y hy).visit ho _

/-- A search that is over has marked what can be reached. -/
theorem iff_reachable (h : Marking origin s starts marked []) :
    marked[o]? = some true ↔ Reachable origin s starts o := by
  have hsettled : ∀ {x i}, Settled s marked [] x → s.at? x = some i → marked[x]? = some true := by
    intro x i hx hi
    rcases hx with hx | hx | hx
    · rw [hi] at hx
      cases hx
    · exact hx
    · cases hx
  refine ⟨h.sound o, ?_⟩
  intro hreach
  -- nothing waits any more, so where code starts is marked, and each step leads to a mark
  induction hreach with
  | start hstart hi => exact hsettled (h.starts _ hstart) hi
  | step _ hi hnext hj ih => exact hsettled (h.closed _ _ ih hi _ hnext) hj

end Marking

/-! ### The search -/

theorem mark_marking (h : Marking origin s starts marked pending) :
    Marking origin s starts (mark origin s marked pending) [] := by
  fun_induction mark origin s marked pending with
  | case1 => exact h
  | case2 marked o rest hnone ih => exact ih (h.skip (.inl hnone))
  | case3 marked o rest i hi ho hm ih =>
    refine ih (h.skip (.inr ?_))
    rw [Array.getElem?_eq_getElem ho, hm]
  | case4 marked o rest i hi ho hm ih => exact ih (h.visit hi ho)
  | case5 marked o rest i hi ho ih =>
    -- every offset with an instruction has a mark
    refine absurd ?_ ho
    rw [h.size]
    exact Sweep.lt_size_of_at? hi

theorem markAll_marking (origin : UInt16) (s : Sweep) (symbols : SymbolMap) :
    Marking origin s (entries origin s.size symbols) (markAll origin s symbols) [] := by
  apply mark_marking
  refine ⟨Array.size_replicate, ?_, ?_, ?_, ?_⟩
  · intro x hx
    simp [Array.getElem?_replicate] at hx
  · intro x hx i hi
    exact .start hx hi
  · intro x hx
    exact .inr (.inr hx)
  · intro x i hx
    simp [Array.getElem?_replicate] at hx

/-- **Marking finds exactly the code that control reaches.** -/
theorem markAll_iff {symbols : SymbolMap} :
    (markAll origin s symbols)[o]? = some true ↔
      Reachable origin s (entries origin s.size symbols) o :=
  (markAll_marking origin s symbols).iff_reachable

/-- The code of an image is what is reached and decodes. -/
theorem Analysis.codeAt?_ofImage_iff {symbols : SymbolMap} {code : Bytes} {i : Instruction} :
    (ofImage origin symbols code).codeAt? o = some i ↔
      Reachable origin (Mos6502.sweep origin code)
        (entries origin (Mos6502.sweep origin code).size symbols) o ∧
      (Mos6502.sweep origin code).at? o = some i := by
  have hmarked : (ofImage origin symbols code).marked[o]?.getD false = true ↔
      Reachable origin (Mos6502.sweep origin code)
        (entries origin (Mos6502.sweep origin code).size symbols) o := by
    rw [← markAll_iff]
    show (markAll origin _ symbols)[o]?.getD false = true ↔ _
    rcases (markAll origin (Mos6502.sweep origin code) symbols)[o]? with - | b <;> simp
  unfold codeAt?
  rw [Option.ite_none_right_eq_some, hmarked]
  rfl

end Mos6502
