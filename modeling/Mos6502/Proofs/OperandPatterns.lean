/-
Mos6502/Proofs/OperandPatterns.lean

Patterns of operands.  What it means that a text fits a pattern is said piece by
piece, with a text for each of them (`Operand.Fits`); that leaves open how a
text is cut up.  Matching goes from left to right and takes as much as it can.

* What matching finds fits (`Operand.fits_of_fit?`).
* If no text behind a gap or a value can start with a byte that belongs to
  them, there is only one way to cut, and matching finds it
  (`Operand.Fits.fit?_eq`).
* Where neither values nor letters may be commas or parentheses, those of a
  text are the signs of the pattern (`Operand.Fits.filter_isMark`).
-/
import Mathlib.Data.List.TakeWhile
import Mos6502.Proofs.LineText

namespace Mos6502

/-! ### Gaps -/

/-- Blanks between two parts of an operand: tabs, line feeds, form feeds,
carriage returns and spaces, in any number. -/
def Gap (ws : Bytes) : Prop :=
  ∀ b ∈ ws, Byte.isBlank b = true

theorem gap_nil : Gap [] := by
  simp [Gap]

/-- A text is a gap and what is left without it. -/
theorem exists_gap (s : Bytes) : ∃ ws, Gap ws ∧ s = ws ++ skipBlanks s :=
  ⟨s.takeWhile Byte.isBlank, fun _ hb => List.mem_takeWhile_imp hb,
    List.takeWhile_append_dropWhile.symm⟩

namespace Operand

variable {pieces : List Piece} {found : Found} {s : Bytes}

/-! ### Fitting -/

/-- A text fits the pieces of a pattern, with what is found. -/
inductive Fits : List Piece → Found → Bytes → Prop
  | nil : Fits [] ⟨[], 0⟩ []
  | sign {b : UInt8} {pieces : List Piece} {found : Found} {s : Bytes} :
      Fits pieces found s → Fits (.sign b :: pieces) found (b :: s)
  | gap {ws : Bytes} {pieces : List Piece} {found : Found} {s : Bytes} :
      Gap ws → Fits pieces found s → Fits (.gap :: pieces) found (ws ++ s)
  | value {v : Bytes} {allowed : UInt8 → Bool} {pieces : List Piece} {found : Found}
      {s : Bytes} : v ≠ [] → (∀ b ∈ v, allowed b = true) → Fits pieces found s →
      Fits (.value allowed :: pieces) { found with value := v } (v ++ s)
  | letter {b : UInt8} {choices : List UInt8} {pieces : List Piece} {found : Found}
      {s : Bytes} : Byte.toUpper b ∈ choices → Fits pieces found s →
      Fits (.letter choices :: pieces) { found with index := Byte.toUpper b } (b :: s)

/-- **What matching finds fits.** -/
theorem fits_of_fit? (h : fit? pieces s = some found) : Fits pieces found s := by
  induction pieces generalizing s found with
  | nil =>
    cases s with
    | nil =>
      cases h
      exact .nil
    | cons => cases h
  | cons piece pieces ih =>
    cases piece with
    | sign b =>
      rw [fit?, Option.ite_none_right_eq_some, beq_iff_eq] at h
      obtain ⟨hhead, hfit⟩ := h
      obtain ⟨rest, rfl⟩ := List.head?_eq_some_iff.mp hhead
      exact .sign (ih hfit)
    | gap =>
      obtain ⟨ws, hws, hs⟩ := exists_gap s
      rw [hs]
      exact .gap hws (ih h)
    | value allowed =>
      rw [fit?, Option.ite_none_left_eq_some, Option.map_eq_some_iff] at h
      obtain ⟨hne, found', hfit, rfl⟩ := h
      have hfits := Fits.value (by simpa using hne) (fun _ hb => List.mem_takeWhile_imp hb)
        (ih hfit)
      rwa [List.takeWhile_append_dropWhile] at hfits
    | letter choices =>
      cases s with
      | nil => cases h
      | cons b rest =>
        rw [fit?, Option.ite_none_right_eq_some, Option.map_eq_some_iff] at h
        obtain ⟨hletter, found', hfit, rfl⟩ := h
        exact .letter (by simpa using hletter) (ih hfit)

/-! ### Only one way to cut -/

/-- The bytes that a text for some pieces may start with. -/
def mayStart : List Piece → UInt8 → Bool
  | [], _ => false
  | .sign b :: _, c => c == b
  | .gap :: pieces, c => Byte.isBlank c || mayStart pieces c
  | .value allowed :: _, c => allowed c
  | .letter choices :: _, c => choices.contains (Byte.toUpper c)

/-- Behind a gap or a value no byte of theirs may follow. -/
def Separated : List Piece → Prop
  | [] => True
  | .gap :: pieces => (∀ c, Byte.isBlank c = true → mayStart pieces c = false) ∧ Separated pieces
  | .value allowed :: pieces =>
    (∀ c, allowed c = true → mayStart pieces c = false) ∧ Separated pieces
  | .sign _ :: pieces | .letter _ :: pieces => Separated pieces

theorem Fits.mayStart_head (h : Fits pieces found s) : ∀ c ∈ s.head?, mayStart pieces c = true := by
  induction h with
  | nil => simp
  | sign => simp [mayStart]
  | @gap ws _ _ s hws _ ih =>
    intro c hc
    rw [mayStart, Bool.or_eq_true]
    cases ws with
    | nil => exact .inr (ih c hc)
    | cons b ws =>
      cases hc
      exact .inl (hws c List.mem_cons_self)
  | @value v _ _ _ _ hne hv _ _ =>
    intro c hc
    cases v with
    | nil => exact absurd rfl hne
    | cons b v =>
      cases hc
      exact hv c List.mem_cons_self
  | letter hletter => simp [mayStart, hletter]

/-- Where bytes of a class may not follow, a text does not start with one. -/
theorem Fits.not_head {p : UInt8 → Bool} (h : Fits pieces found s)
    (hp : ∀ c, p c = true → mayStart pieces c = false) : ∀ c ∈ s.head?, p c = false := by
  intro c hc
  rw [Bool.eq_false_iff]
  intro hpc
  have hstart := h.mayStart_head c hc
  rw [hp c hpc] at hstart
  cases hstart

/-- **A text that fits is found to fit.** -/
theorem Fits.fit?_eq (h : Fits pieces found s) (hsep : Separated pieces) :
    fit? pieces s = some found := by
  induction h with
  | nil => rfl
  | sign _ ih =>
    rw [fit?, if_pos (by simp)]
    exact ih hsep
  | gap hws hfits ih =>
    rw [fit?, skipBlanks, dropWhile_append_of_head hws (hfits.not_head hsep.1)]
    exact ih hsep.2
  | value hne hv hfits ih =>
    have hhead := hfits.not_head hsep.1
    rw [fit?, takeWhile_append_of_head hv hhead, dropWhile_append_of_head hv hhead,
      if_neg (by simpa using hne), ih hsep.2]
    rfl
  | letter hletter _ ih =>
    rw [fit?, if_pos (by simpa using hletter), ih hsep]
    rfl

/-! ### Signs -/

/-- The commas and parentheses among the signs of a pattern. -/
def marks : List Piece → Bytes
  | [] => []
  | .sign b :: pieces => [b].filter isMark ++ marks pieces
  | _ :: pieces => marks pieces

/-- Neither values nor letters may be commas or parentheses. -/
def Unmarked : List Piece → Prop
  | [] => True
  | .value allowed :: pieces => (∀ b, allowed b = true → isMark b = false) ∧ Unmarked pieces
  | .letter choices :: pieces =>
    (∀ b, Byte.toUpper b ∈ choices → isMark b = false) ∧ Unmarked pieces
  | .sign _ :: pieces | .gap :: pieces => Unmarked pieces

theorem isMark_of_isBlank {b : UInt8} (h : Byte.isBlank b = true) : isMark b = false := by
  simp only [Byte.isBlank, Bool.or_eq_true, beq_iff_eq] at h
  rcases h with (((rfl | rfl) | rfl) | rfl) | rfl <;> rfl

theorem filter_isMark_of_forall (h : ∀ b ∈ s, isMark b = false) : s.filter isMark = [] := by
  simpa [List.filter_eq_nil_iff] using h

/-- **The commas and parentheses of a text are the signs of its pattern.** -/
theorem Fits.filter_isMark (h : Fits pieces found s) (hunmarked : Unmarked pieces) :
    s.filter isMark = marks pieces := by
  induction h with
  | nil => rfl
  | @sign b _ _ s _ ih =>
    rw [marks, ← ih hunmarked, ← List.filter_append]
    rfl
  | gap hws _ ih =>
    rw [List.filter_append, filter_isMark_of_forall fun b hb => isMark_of_isBlank (hws b hb)]
    exact ih hunmarked
  | value _ hv _ ih =>
    rw [List.filter_append, filter_isMark_of_forall fun b hb => hunmarked.1 b (hv b hb)]
    exact ih hunmarked.2
  | letter hletter _ ih =>
    rw [List.filter_cons_of_neg (by simp [hunmarked.1 _ hletter])]
    exact ih hunmarked.2

end Operand

end Mos6502
