/-
Mos6502/Proofs/Fallible.lean

Computations that may fail, opened up.  Every pass of the assembler and of the
linker is a `mapM` or a `foldlM` in `Except`: it stops at the first element
that fails.  The lemmas here say what a finished pass has done and which
element an unfinished one has stopped at, so that no later proof unfolds a
monad.

* `bind_eq_ok_iff`, `bind_eq_error_iff`, `mapError_eq_ok_iff` — one step;
* `mapM_eq_ok_iff`, `exists_of_mem_forall₂`, `exists_of_mem_mapM`,
  `mapM_eq_error_iff` — a pass without state;
* `foldlM_invariant`, `foldlM_append_ok`, `foldlM_eq_error` — a pass with state.
-/
import Mathlib.Data.List.Forall2

namespace Mos6502

variable {ε α β σ : Type}

/-! ### One step -/

theorem bind_eq_ok_iff {x : Except ε α} {f : α → Except ε β} {r : β} :
    x >>= f = .ok r ↔ ∃ a, x = .ok a ∧ f a = .ok r := by
  rcases x with e | a
  · constructor
    · intro h
      cases h
    · rintro ⟨_, h, -⟩
      cases h
  · constructor
    · intro h
      exact ⟨a, rfl, h⟩
    · rintro ⟨_, h, hf⟩
      cases h
      exact hf

theorem bind_eq_error_iff {x : Except ε α} {f : α → Except ε β} {e : ε} :
    x >>= f = .error e ↔ x = .error e ∨ ∃ a, x = .ok a ∧ f a = .error e := by
  rcases x with e' | a
  · constructor
    · intro h
      cases h
      exact .inl rfl
    · rintro (h | ⟨_, h, _⟩) <;> cases h
      rfl
  · constructor
    · intro h
      exact .inr ⟨a, rfl, h⟩
    · rintro (h | ⟨_, h, hf⟩) <;> cases h
      exact hf

/-- Errors in other words are errors still. -/
theorem mapError_eq_ok_iff {ε' : Type} {f : ε → ε'} {x : Except ε α} {a : α} :
    x.mapError f = .ok a ↔ x = .ok a := by
  rcases x with e | b
  · constructor <;> intro h <;> cases h
  · constructor <;> intro h <;> cases h <;> rfl

/-! ### Passes without state -/

/-- A finished pass pairs every element with its result. -/
theorem mapM_eq_ok_iff {f : α → Except ε β} {l : List α} {out : List β} :
    l.mapM f = .ok out ↔ List.Forall₂ (fun a b => f a = .ok b) l out := by
  induction l generalizing out with
  | nil =>
    rw [List.mapM_nil, List.forall₂_nil_left_iff]
    exact ⟨fun h => by cases h; rfl, fun h => by rw [h]; rfl⟩
  | cons a rest ih =>
    rw [List.mapM_cons, List.forall₂_cons_left_iff]
    constructor
    · intro h
      obtain ⟨b, hb, h⟩ := bind_eq_ok_iff.mp h
      obtain ⟨bs, hbs, h⟩ := bind_eq_ok_iff.mp h
      cases h
      exact ⟨b, bs, hb, ih.mp hbs, rfl⟩
    · rintro ⟨b, bs, hb, hbs, rfl⟩
      rw [hb, ih.mpr hbs]
      rfl

/-- What stands in a list of results belongs to an element. -/
theorem exists_of_mem_forall₂ {R : α → β → Prop} {l : List α} {out : List β}
    (h : List.Forall₂ R l out) {b : β} (hb : b ∈ out) : ∃ a ∈ l, R a b := by
  induction h with
  | nil => cases hb
  | cons hhead _ ih =>
    rcases List.mem_cons.mp hb with rfl | hb
    · exact ⟨_, List.mem_cons_self, hhead⟩
    · obtain ⟨a, ha, hR⟩ := ih hb
      exact ⟨a, List.mem_cons_of_mem _ ha, hR⟩

/-- What a finished pass holds is the result of an element. -/
theorem exists_of_mem_mapM {f : α → Except ε β} {l : List α} {out : List β}
    (h : l.mapM f = .ok out) {b : β} (hb : b ∈ out) : ∃ a ∈ l, f a = .ok b :=
  exists_of_mem_forall₂ (mapM_eq_ok_iff.mp h) hb

/-- A pass that stops has stopped at the first element that fails. -/
theorem mapM_eq_error_iff {f : α → Except ε β} {l : List α} {e : ε} :
    l.mapM f = .error e ↔ ∃ before a after, l = before ++ a :: after ∧
      (∀ x ∈ before, ∃ b, f x = .ok b) ∧ f a = .error e := by
  induction l with
  | nil =>
    rw [List.mapM_nil]
    constructor
    · intro h
      cases h
    · rintro ⟨before, a, after, h, -⟩
      cases before <;> cases h
  | cons a rest ih =>
    rw [List.mapM_cons]
    constructor
    · intro h
      rcases bind_eq_error_iff.mp h with ha | ⟨b, hb, h⟩
      · exact ⟨[], a, rest, rfl, by simp, ha⟩
      · rcases bind_eq_error_iff.mp h with hrest | ⟨_, _, h⟩
        · obtain ⟨before, c, after, rfl, hok, hc⟩ := ih.mp hrest
          refine ⟨a :: before, c, after, rfl, ?_, hc⟩
          intro x hx
          rcases List.mem_cons.mp hx with rfl | hx
          · exact ⟨b, hb⟩
          · exact hok x hx
        · cases h
    · rintro ⟨before, c, after, hl, hok, hc⟩
      cases before with
      | nil =>
        cases hl
        rw [hc]
        rfl
      | cons x before =>
        obtain ⟨rfl, hrest⟩ := List.cons.inj hl
        obtain ⟨b, hb⟩ := hok a (by simp)
        have hrest : rest.mapM f = .error e :=
          ih.mpr ⟨before, c, after, hrest, fun y hy => hok y (by simp [hy]), hc⟩
        rw [hb, hrest]
        rfl

/-! ### Passes with state -/

/-- What every step keeps, a whole pass keeps. -/
theorem foldlM_invariant {f : σ → α → Except ε σ} {P : σ → Prop} {l : List α}
    (hstep : ∀ {s a s'}, a ∈ l → P s → f s a = .ok s' → P s') {s s' : σ} (hs : P s)
    (h : l.foldlM f s = .ok s') : P s' := by
  induction l generalizing s with
  | nil =>
    cases h
    exact hs
  | cons a rest ih =>
    rw [List.foldlM_cons] at h
    obtain ⟨t, ht, h⟩ := bind_eq_ok_iff.mp h
    exact ih (fun ha => hstep (List.mem_cons_of_mem _ ha)) (hstep (by simp) hs ht) h

/-- A finished pass over two lists has finished over the first. -/
theorem foldlM_append_ok {f : σ → α → Except ε σ} {xs ys : List α} {s s' : σ} :
    (xs ++ ys).foldlM f s = .ok s' ↔
      ∃ t, xs.foldlM f s = .ok t ∧ ys.foldlM f t = .ok s' := by
  rw [List.foldlM_append]
  exact bind_eq_ok_iff

/-- A pass that stops has stopped at an element, in the state that those before
it have led to. -/
theorem foldlM_eq_error {f : σ → α → Except ε σ} {l : List α} {s : σ} {e : ε}
    (h : l.foldlM f s = .error e) :
    ∃ before a after t, l = before ++ a :: after ∧ before.foldlM f s = .ok t ∧
      f t a = .error e := by
  induction l generalizing s with
  | nil => cases h
  | cons a rest ih =>
    rw [List.foldlM_cons] at h
    rcases bind_eq_error_iff.mp h with ha | ⟨t, ht, hrest⟩
    · exact ⟨[], a, rest, s, rfl, rfl, ha⟩
    · obtain ⟨before, c, after, t', rfl, hbefore, hc⟩ := ih hrest
      refine ⟨a :: before, c, after, t', rfl, ?_, hc⟩
      rw [List.foldlM_cons, ht]
      exact hbefore

end Mos6502
