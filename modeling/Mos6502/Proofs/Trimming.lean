/-
Mos6502/Proofs/Trimming.lean

What trimming leaves.  White space is a run of units, each the bytes of one
white-space character; a text is trimmed if no unit stands at either edge.
`Trims s t` says that `t` is trimmed and that `s` is `t` with white space
around it.  There is exactly one such `t`, and `trim` computes it
(`trims_iff`).

That there is only one rests on three facts about the table, which hold since
its units are UTF-8 sequences:

* no unit is the start of another one, so the units of a run can be taken off
  the front one by one (`dropUnits_run`);
* the same from the back, with the bytes of each unit reversed;
* no unit begins with a byte that stands inside a unit, so none lies across
  the border of a text and the white space behind it (`not_prefix_append`).
-/
import Mathlib.Data.List.Basic
import Mos6502.Text.Blank
import Mos6502.Text.Utf8

namespace Mos6502.Text

/-! ### Runs of units -/

/-- Units of a table, one after another. -/
inductive Run (units : List Bytes) : Bytes → Prop
  | nil : Run units []
  | cons {u s : Bytes} : u ∈ units → Run units s → Run units (u ++ s)

namespace Run

variable {units : List Bytes} {s t : Bytes}

theorem append (hs : Run units s) (ht : Run units t) : Run units (s ++ t) := by
  induction hs with
  | nil => exact ht
  | cons hu _ ih =>
    rw [List.append_assoc]
    exact .cons hu ih

theorem unit {u : Bytes} (hu : u ∈ units) : Run units u := by
  have h : Run units (u ++ []) := .cons hu .nil
  rwa [List.append_nil] at h

theorem reverse (h : Run units s) : Run (units.map List.reverse) s.reverse := by
  induction h with
  | nil => exact .nil
  | cons hu _ ih =>
    rw [List.reverse_append]
    exact ih.append (unit (List.mem_map_of_mem hu))

/-- A run that is not empty has a unit at its end. -/
theorem exists_suffix (h : Run units s) (hs : s ≠ []) : ∃ u ∈ units, u <:+ s := by
  induction h with
  | nil => exact absurd rfl hs
  | @cons u rest hu hrest ih =>
    by_cases hempty : rest = []
    · exact ⟨u, hu, [], by simp [hempty]⟩
    · obtain ⟨v, hv, hsuffix⟩ := ih hempty
      exact ⟨v, hv, hsuffix.trans (List.suffix_append u rest)⟩

end Run

/-! ### Taking units off the front -/

/-- A table in which no unit is empty and none is the start of another. -/
structure PrefixFree (units : List Bytes) : Prop where
  ne_nil : ∀ u ∈ units, u ≠ []
  eq_of_prefix : ∀ u ∈ units, ∀ v ∈ units, u <+: v → u = v

section DropUnits

variable {units : List Bytes} {s run : Bytes}

theorem unitAtFront?_eq_none_iff (hunits : PrefixFree units) :
    unitAtFront? units s = none ↔ ∀ u ∈ units, ¬ u <+: s := by
  unfold unitAtFront?
  rw [List.find?_eq_none]
  constructor
  · intro h u hu hprefix
    have hne : u.isEmpty = false := by simpa using hunits.ne_nil u hu
    apply h u hu
    simp [hne, hprefix]
  · intro h u hu hfront
    simp only [Bool.and_eq_true, List.isPrefixOf_iff_prefix] at hfront
    exact h u hu hfront.2

theorem mem_of_unitAtFront? {u : Bytes} (h : unitAtFront? units s = some u) :
    u ∈ units ∧ u <+: s := by
  have hfront := List.find?_some h
  simp only [Bool.and_eq_true, List.isPrefixOf_iff_prefix] at hfront
  exact ⟨List.mem_of_find?_eq_some h, hfront.2⟩

/-- A unit at the front is the one that is found there. -/
theorem unitAtFront?_append (hunits : PrefixFree units) {u : Bytes} (hu : u ∈ units) :
    unitAtFront? units (u ++ s) = some u := by
  rcases hfound : unitAtFront? units (u ++ s) with - | v
  · exact absurd (List.prefix_append u s) ((unitAtFront?_eq_none_iff hunits).mp hfound u hu)
  · obtain ⟨hv, hprefix⟩ := mem_of_unitAtFront? hfound
    -- both stand at the front, so one is the start of the other
    rcases List.prefix_or_prefix_of_prefix hprefix (List.prefix_append u s) with h | h
    · rw [hunits.eq_of_prefix v hv u hu h]
    · rw [hunits.eq_of_prefix u hu v hv h]

theorem dropUnits_of_none (h : unitAtFront? units s = none) : dropUnits units s = s := by
  rw [dropUnits]
  split
  · rfl
  · next hsome =>
    rw [h] at hsome
    cases hsome

theorem dropUnits_of_some {u : Bytes} (h : unitAtFront? units s = some u) :
    dropUnits units s = dropUnits units (s.drop u.length) := by
  rw [dropUnits]
  split
  · next hnone =>
    rw [h] at hnone
    cases hnone
  · next hsome =>
    rw [h] at hsome
    cases hsome
    rfl

/-- A run at the front is taken off whole. -/
theorem dropUnits_run (hunits : PrefixFree units) (hrun : Run units run) :
    dropUnits units (run ++ s) = dropUnits units s := by
  induction hrun with
  | nil => rfl
  | @cons u rest hu _ ih =>
    rw [List.append_assoc, dropUnits_of_some (unitAtFront?_append hunits hu), List.drop_left, ih]

/-- What is taken off is a run, and no unit is left at the front. -/
theorem exists_run_dropUnits (hunits : PrefixFree units) (s : Bytes) :
    (∃ run, Run units run ∧ s = run ++ dropUnits units s) ∧
      ∀ u ∈ units, ¬ u <+: dropUnits units s := by
  fun_induction dropUnits units s with
  | case1 s hnone => exact ⟨⟨[], .nil, rfl⟩, (unitAtFront?_eq_none_iff hunits).mp hnone⟩
  | case2 s u hsome ih =>
    obtain ⟨hu, rest, rfl⟩ := mem_of_unitAtFront? hsome
    rw [List.drop_left] at ih ⊢
    obtain ⟨⟨run, hrun, heq⟩, hfront⟩ := ih
    refine ⟨⟨u ++ run, .cons hu hrun, ?_⟩, hfront⟩
    rw [List.append_assoc, ← heq]

end DropUnits

/-! ### The table -/

/-- White space: white-space characters one after another. -/
abbrev White (s : Bytes) : Prop :=
  Run blanks s

theorem prefixFree_blanks : PrefixFree blanks :=
  ⟨by decide +kernel, by decide +kernel⟩

theorem prefixFree_blanksReversed : PrefixFree blanksReversed :=
  ⟨by decide +kernel, by decide +kernel⟩

theorem white_reverse {s : Bytes} (h : Run blanksReversed s) : White s.reverse := by
  have hback : blanksReversed.map List.reverse = blanks := by decide +kernel
  have hreverse := h.reverse
  rwa [hback] at hreverse

/-- Only the bytes behind the first of a unit continue a sequence. -/
theorem isContinuation_blanks : ∀ u ∈ blanks,
    (∀ b ∈ u.head?, isContinuation b = false) ∧ ∀ b ∈ u.tail, isContinuation b = true := by
  decide +kernel

theorem White.isContinuation_head {s : Bytes} (h : White s) :
    ∀ b ∈ s.head?, isContinuation b = false := by
  intro b hb
  cases h with
  | nil => cases hb
  | @cons u rest hu _ =>
    rw [List.head?_append_of_ne_nil _ (prefixFree_blanks.ne_nil u hu)] at hb
    exact (isContinuation_blanks u hu).1 b hb

/-! ### Trimmed texts -/

/-- A text without white space at its edges. -/
structure Trimmed (s : Bytes) : Prop where
  front : ∀ u ∈ blanks, ¬ u <+: s
  back : ∀ u ∈ blanks, ¬ u <:+ s

/-- A text and what is left of it without the white space at its edges. -/
def Trims (s t : Bytes) : Prop :=
  Trimmed t ∧ ∃ before after, White before ∧ White after ∧ s = before ++ (t ++ after)

theorem trimmed_nil : Trimmed [] where
  front u hu h := prefixFree_blanks.ne_nil u hu (List.prefix_nil.mp h)
  back u hu h := prefixFree_blanks.ne_nil u hu (List.suffix_nil.mp h)

theorem Trimmed.trims {t : Bytes} (h : Trimmed t) : Trims t t :=
  ⟨h, [], [], .nil, .nil, by simp⟩

/-- White space behind a text brings no unit to its front. -/
theorem not_prefix_append {t after : Bytes} (ht : t ≠ []) (hfront : ∀ u ∈ blanks, ¬ u <+: t)
    (hafter : White after) : ∀ u ∈ blanks, ¬ u <+: t ++ after := by
  intro u hu hprefix
  rcases List.prefix_or_prefix_of_prefix hprefix (List.prefix_append t after) with h | h
  · exact hfront u hu h
  · -- the unit lies across the border: `x` is its part in the white space
    obtain ⟨x, rfl⟩ := h
    have hx : x <+: after := (List.prefix_append_right_inj t).mp hprefix
    obtain ⟨b, rest, rfl⟩ : ∃ b rest, x = b :: rest := by
      apply List.exists_cons_of_ne_nil
      rintro rfl
      rw [List.append_nil] at hu
      exact hfront t hu (List.prefix_refl t)
    have hinside : isContinuation b = true := by
      apply (isContinuation_blanks _ hu).2
      rw [List.tail_append_of_ne_nil ht]
      simp
    have hborder : isContinuation b = false := by
      obtain ⟨more, rfl⟩ := hx
      exact hafter.isContinuation_head b rfl
    rw [hinside] at hborder
    cases hborder

/-- Trimming leaves a trimmed text and takes white space only. -/
theorem trims_trim (s : Bytes) : Trims s (trim s) := by
  obtain ⟨⟨before, hbefore, hs⟩, hfront⟩ := exists_run_dropUnits prefixFree_blanks s
  obtain ⟨⟨after, hafter, hm⟩, hback⟩ :=
    exists_run_dropUnits prefixFree_blanksReversed (dropUnits blanks s).reverse
  -- `m` is the text without its leading white space
  have hm' : dropUnits blanks s = trim s ++ after.reverse := by
    rw [← List.reverse_reverse (dropUnits blanks s), hm, List.reverse_append]
    rfl
  refine ⟨⟨?_, ?_⟩, before, after.reverse, hbefore, white_reverse hafter, ?_⟩
  · intro u hu hprefix
    apply hfront u hu
    rw [hm']
    exact hprefix.trans (List.prefix_append _ _)
  · intro u hu hsuffix
    apply hback u.reverse (List.mem_map_of_mem hu)
    rw [← List.reverse_suffix, List.reverse_reverse]
    exact hsuffix
  · rw [← hm', ← hs]

/-- **Trimming is exact**: what it leaves is the one trimmed text that the
whole is with white space around it. -/
theorem trims_iff {s t : Bytes} : Trims s t ↔ trim s = t := by
  constructor
  · rintro ⟨⟨hfront, hback⟩, before, after, hbefore, hafter, rfl⟩
    -- nothing is left at the front of the text itself
    have hstart : dropUnits blanks (t ++ after) = if t = [] then [] else t ++ after := by
      split
      · next h =>
        subst h
        have hall := dropUnits_run (s := []) prefixFree_blanks hafter
        rw [List.append_nil] at hall
        rw [List.nil_append, hall, dropUnits_of_none rfl]
      · next h =>
        apply dropUnits_of_none
        exact (unitAtFront?_eq_none_iff prefixFree_blanks).mpr (not_prefix_append h hfront hafter)
    rw [trim, trimStart, dropUnits_run prefixFree_blanks hbefore, hstart, trimEnd]
    split
    · next h =>
      rw [h, List.reverse_nil, dropUnits_of_none rfl, List.reverse_nil]
    · have hnone : unitAtFront? blanksReversed t.reverse = none := by
        apply (unitAtFront?_eq_none_iff prefixFree_blanksReversed).mpr
        intro u hu hprefix
        obtain ⟨v, hv, rfl⟩ := List.mem_map.mp hu
        exact hback v hv (List.reverse_prefix.mp hprefix)
      rw [List.reverse_append, dropUnits_run prefixFree_blanksReversed hafter.reverse,
        dropUnits_of_none hnone, List.reverse_reverse]
  · rintro rfl
    exact trims_trim s

/-- White space in front makes no difference. -/
theorem trim_white_append {before : Bytes} (hbefore : White before) (s : Bytes) :
    trim (before ++ s) = trim s := by
  obtain ⟨htrimmed, left, right, hleft, hright, hs⟩ := trims_trim s
  apply trims_iff.mp
  refine ⟨htrimmed, before ++ left, right, hbefore.append hleft, hright, ?_⟩
  rw [List.append_assoc, ← hs]

/-- White space behind makes no difference. -/
theorem trim_append_white {after : Bytes} (hafter : White after) (s : Bytes) :
    trim (s ++ after) = trim s := by
  obtain ⟨htrimmed, left, right, hleft, hright, hs⟩ := trims_trim s
  apply trims_iff.mp
  refine ⟨htrimmed, left, right ++ after, hleft, hright.append hafter, ?_⟩
  rw [← List.append_assoc (trim s), ← List.append_assoc left, ← hs]

/-- Behind a text that ends without white space there is none to trim. -/
theorem exists_white_trim {s : Bytes} (hback : ∀ u ∈ blanks, ¬ u <:+ s) :
    ∃ gap, White gap ∧ s = gap ++ trim s := by
  obtain ⟨-, before, after, hbefore, hafter, hs⟩ := trims_trim s
  have hnone : after = [] := by
    by_contra hne
    obtain ⟨u, hu, hsuffix⟩ := hafter.exists_suffix hne
    apply hback u hu
    rw [hs, ← List.append_assoc]
    exact hsuffix.trans (List.suffix_append _ _)
  rw [hnone, List.append_nil] at hs
  exact ⟨before, hbefore, hs⟩

end Mos6502.Text
