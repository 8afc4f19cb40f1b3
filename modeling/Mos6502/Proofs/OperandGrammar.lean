/-
Mos6502/Proofs/OperandGrammar.lean

The grammar of operands, and that reading an operand is exactly finding its
production.  With `v` a literal or an identifier and a gap wherever two parts
meet, the productions are

    v    # v    v , i    ( v )    ( v , x )    ( v ) , y

`Operand.Produces` has one rule for each of them and says nothing of an order
in which forms are tried.  Reading does try them one after the other, with
patterns that take more than the grammar allows and overlap outside of it.

* Every production fits the pattern of its form, and what fits a pattern with a
  value in it is a production (`Operand.Produces.fits`, `Operand.produces_of_fits`).
* The commas and parentheses of a production, and a hash in front, tell its form,
  so it fits no pattern of another one (`Operand.Produces.eq_of_fits`).

So the first pattern that fits is the right one wherever it stands in the list:
reading finds a production exactly if there is one, by the patterns in any order
(`Operand.parseIn?_eq_some_iff`).
-/
import Mos6502.Proofs.OperandPatterns

namespace Mos6502

/-! ### Texts of values -/

/-- The text of a literal or an identifier. -/
inductive IsValueText : Bytes → Prop
  | literal {digits : Bytes} : digits ≠ [] → (∀ b ∈ digits, Byte.isHexDigit b = true) →
      IsValueText (0x24 :: digits)
  | identifier {name : Bytes} : isIdentifier name = true → IsValueText name

theorem Byte.isNamePart_of_isHexDigit {b : UInt8} (h : isHexDigit b = true) :
    isNamePart b = true := by
  simp only [isHexDigit, isNamePart, isNameStart, isLetter, isDigit, Bool.or_eq_true,
    Bool.and_eq_true, decide_eq_true_eq, UInt8.le_iff_toNat_le, UInt8.reduceToNat] at h ⊢
  omega

theorem Byte.isPlain_of_isHexDigit {b : UInt8} (h : isHexDigit b = true) : isPlain b = true :=
  isPlain_of_isNamePart (isNamePart_of_isHexDigit h)

theorem Byte.eq_or_eq_of_toUpper {b d : UInt8} (h : toUpper b = d) : b = d ∨ b = d + 0x20 := by
  unfold toUpper at h
  split at h
  · right
    rw [← h, UInt8.sub_add_cancel]
  · exact .inl h

namespace Operand

theorem isMark_of_isTight {b : UInt8} (h : isTight b = true) : isMark b = false := by
  rw [isTight, Bool.and_eq_true] at h
  simpa using h.2

theorem isSolid_of_isTight {b : UInt8} (h : isTight b = true) : isSolid b = true :=
  (Bool.and_eq_true_iff.mp h).1

theorem isTight_of_isNamePart {b : UInt8} (h : Byte.isNamePart b = true) : isTight b = true := by
  simp only [Byte.isNamePart, Byte.isNameStart, Byte.isLetter, Byte.isDigit, Bool.or_eq_true,
    Bool.and_eq_true, decide_eq_true_eq, beq_iff_eq, UInt8.le_iff_toNat_le,
    ← UInt8.toNat_inj, UInt8.reduceToNat] at h
  simp only [isTight, isSolid, isMark, Byte.isBlank, Bool.and_eq_true, Bool.not_eq_true',
    Bool.or_eq_false_iff, beq_eq_false_iff_ne, ne_eq, ← UInt8.toNat_inj, UInt8.reduceToNat]
  omega

end Operand

namespace IsValueText

variable {v : Bytes}

theorem eq_or_isNamePart (hv : IsValueText v) {b : UInt8} (hb : b ∈ v) :
    b = 0x24 ∨ Byte.isNamePart b = true := by
  cases hv with
  | literal _ hdigits =>
    rcases List.mem_cons.mp hb with rfl | hb
    · exact .inl rfl
    · exact .inr (Byte.isNamePart_of_isHexDigit (hdigits b hb))
  | identifier hname =>
    obtain ⟨c, rest, rfl, hc, hrest⟩ := isIdentifier_iff.mp hname
    rcases List.mem_cons.mp hb with rfl | hb
    · exact .inr (Byte.isNamePart_of_isNameStart hc)
    · exact .inr (hrest b hb)

theorem isPlain (hv : IsValueText v) : ∀ b ∈ v, Byte.isPlain b = true := by
  intro b hb
  rcases hv.eq_or_isNamePart hb with rfl | hpart
  · rfl
  · exact Byte.isPlain_of_isNamePart hpart

/-- The first byte of a value starts a literal or a name, so it is none of the
signs that an operand may start with. -/
theorem head (hv : IsValueText v) :
    ∃ b rest, v = b :: rest ∧ (b = 0x24 ∨ Byte.isNameStart b = true) := by
  cases hv with
  | literal => exact ⟨_, _, rfl, .inl rfl⟩
  | identifier hname =>
    obtain ⟨b, rest, rfl, hb, -⟩ := isIdentifier_iff.mp hname
    exact ⟨b, rest, rfl, .inr hb⟩

theorem ne_nil (hv : IsValueText v) : v ≠ [] := by
  obtain ⟨b, rest, rfl, -⟩ := hv.head
  exact List.cons_ne_nil b rest

/-- The bytes of a value are neither blanks nor commas or parentheses. -/
theorem isTight (hv : IsValueText v) : ∀ b ∈ v, Operand.isTight b = true := by
  intro b hb
  rcases hv.eq_or_isNamePart hb with rfl | hpart
  · rfl
  · exact Operand.isTight_of_isNamePart hpart

theorem filter_isMark (hv : IsValueText v) : v.filter Operand.isMark = [] :=
  Operand.filter_isMark_of_forall fun b hb => Operand.isMark_of_isTight (hv.isTight b hb)

end IsValueText

/-- The check of a value is exact. -/
theorem isValue_iff {v : Bytes} : isValue v = true ↔ IsValueText v := by
  constructor
  · intro h
    unfold isValue at h
    split at h
    · rw [Bool.and_eq_true, List.all_eq_true] at h
      exact .literal (by simpa using h.1) h.2
    · exact .identifier h
  · intro h
    cases h with
    | literal hne hdigits => simpa [isValue, hne] using hdigits
    | identifier hname =>
      obtain ⟨b, rest, rfl, hb, -⟩ := isIdentifier_iff.mp hname
      unfold isValue
      split
      · next heq =>
        cases heq
        cases hb
      · exact hname

namespace Operand

/-! ### Productions -/

/-- An index letter as it is written, and as it is recorded: in upper case. -/
inductive Letter : UInt8 → UInt8 → Prop
  | upperX : Letter 0x58 letterX
  | lowerX : Letter 0x78 letterX
  | upperY : Letter 0x59 letterY
  | lowerY : Letter 0x79 letterY

/-- The texts of an operand, by form, value and index. -/
inductive Produces : Form → Bytes → UInt8 → Bytes → Prop
  /-- `v` -/
  | bare {v : Bytes} : IsValueText v → Produces .bare v 0 v
  /-- `# v` -/
  | immediate {v ws : Bytes} : IsValueText v → Gap ws →
      Produces .immediate v 0 (0x23 :: (ws ++ v))
  /-- `v , i` -/
  | indexed {v ws₁ ws₂ : Bytes} {c index : UInt8} : IsValueText v → Gap ws₁ → Gap ws₂ →
      Letter c index → Produces .indexed v index (v ++ (ws₁ ++ 0x2C :: (ws₂ ++ [c])))
  /-- `( v )` -/
  | indirect {v ws₁ ws₂ : Bytes} : IsValueText v → Gap ws₁ → Gap ws₂ →
      Produces .indirect v 0 (0x28 :: (ws₁ ++ (v ++ (ws₂ ++ [0x29]))))
  /-- `( v , x )` -/
  | indexedIndirect {v ws₁ ws₂ ws₃ ws₄ : Bytes} {c : UInt8} : IsValueText v → Gap ws₁ →
      Gap ws₂ → Gap ws₃ → Gap ws₄ → Letter c letterX →
      Produces .indexedIndirect v letterX
        (0x28 :: (ws₁ ++ (v ++ (ws₂ ++ 0x2C :: (ws₃ ++ c :: (ws₄ ++ [0x29]))))))
  /-- `( v ) , y` -/
  | indirectIndexed {v ws₁ ws₂ ws₃ ws₄ : Bytes} {c : UInt8} : IsValueText v → Gap ws₁ →
      Gap ws₂ → Gap ws₃ → Gap ws₄ → Letter c letterY →
      Produces .indirectIndexed v letterY
        (0x28 :: (ws₁ ++ (v ++ (ws₂ ++ 0x29 :: (ws₃ ++ 0x2C :: (ws₄ ++ [c]))))))

variable {form : Form} {v s tail ws : Bytes} {index c : UInt8}

/-- Upper case is all that is asked of an index letter. -/
theorem letter_iff :
    Letter c index ↔ (index = letterX ∨ index = letterY) ∧ Byte.toUpper c = index := by
  constructor
  · rintro (- | - | - | -) <;> decide
  · rintro ⟨rfl | rfl, hupper⟩
    · rcases Byte.eq_or_eq_of_toUpper hupper with rfl | rfl
      · exact .upperX
      · exact .lowerX
    · rcases Byte.eq_or_eq_of_toUpper hupper with rfl | rfl
      · exact .upperY
      · exact .lowerY

theorem Letter.isMark (h : Letter c index) : isMark c = false := by
  cases h <;> rfl

/-- A letter that is one of some choices is the index of a text. -/
theorem Letter.fits {choices : List UInt8} {pieces : List Piece} {found : Found}
    (hc : Letter c index) (hmem : index ∈ choices) (h : Fits pieces found s) :
    Fits (.letter choices :: pieces) { found with index := index } (c :: s) := by
  obtain ⟨-, rfl⟩ := letter_iff.mp hc
  exact .letter hmem h

theorem Produces.isValueText (h : Produces form v index s) : IsValueText v := by
  cases h <;> assumption

theorem Produces.ne_other (h : Produces form v index s) : form ≠ .other := by
  cases h <;> exact Form.noConfusion

/-! ### Productions and patterns -/

variable {found : Found}

/-- **What fits a pattern, with a value in it, is a production.** -/
theorem produces_of_fits (hform : form ∈ patterned) (h : Fits (pattern form) found s)
    (hv : IsValueText found.value) : Produces form found.value found.index s := by
  cases form with
  | immediate =>
    cases h with | sign h =>
    cases h with | gap hws h =>
    cases h with | value _ _ h =>
    cases h
    rw [List.append_nil]
    exact .immediate hv hws
  | indexed =>
    cases h with | value _ _ h =>
    cases h with | gap hws₁ h =>
    cases h with | sign h =>
    cases h with | gap hws₂ h =>
    cases h with | letter hc h =>
    cases h
    exact .indexed hv hws₁ hws₂ (letter_iff.mpr ⟨by simpa using hc, rfl⟩)
  | indirect =>
    cases h with | sign h =>
    cases h with | gap hws₁ h =>
    cases h with | value _ _ h =>
    cases h with | gap hws₂ h =>
    cases h with | sign h =>
    cases h
    exact .indirect hv hws₁ hws₂
  | indexedIndirect =>
    cases h with | sign h =>
    cases h with | gap hws₁ h =>
    cases h with | value _ _ h =>
    cases h with | gap hws₂ h =>
    cases h with | sign h =>
    cases h with | gap hws₃ h =>
    cases h with | letter hc h =>
    cases h with | gap hws₄ h =>
    cases h with | sign h =>
    cases h
    rw [List.mem_singleton] at hc
    rw [hc]
    exact .indexedIndirect hv hws₁ hws₂ hws₃ hws₄ (letter_iff.mpr ⟨.inl rfl, hc⟩)
  | indirectIndexed =>
    cases h with | sign h =>
    cases h with | gap hws₁ h =>
    cases h with | value _ _ h =>
    cases h with | gap hws₂ h =>
    cases h with | sign h =>
    cases h with | gap hws₃ h =>
    cases h with | sign h =>
    cases h with | gap hws₄ h =>
    cases h with | letter hc h =>
    cases h
    rw [List.mem_singleton] at hc
    rw [hc]
    exact .indirectIndexed hv hws₁ hws₂ hws₃ hws₄ (letter_iff.mpr ⟨.inr rfl, hc⟩)
  | bare => simp [patterned] at hform
  | other => simp [patterned] at hform

/-- **A production is a value alone, or fits the pattern of its form.** -/
theorem Produces.fits (h : Produces form v index s) :
    (form = .bare ∧ v = s ∧ index = 0) ∨
      (form ∈ patterned ∧ Fits (pattern form) ⟨v, index⟩ s) := by
  cases h with
  | bare => exact .inl ⟨rfl, rfl, rfl⟩
  | immediate hv hws =>
    have hsolid : ∀ b ∈ v, isSolid b = true := fun b hb => isSolid_of_isTight (hv.isTight b hb)
    have hfits : Fits (pattern .immediate) ⟨v, 0⟩ _ :=
      .sign (.gap hws (.value hv.ne_nil hsolid .nil))
    rw [List.append_nil] at hfits
    exact .inr ⟨by decide, hfits⟩
  | indexed hv hws₁ hws₂ hc =>
    have hletter : Fits [.letter [letterX, letterY]] ⟨[], index⟩ _ :=
      hc.fits (by simpa using (letter_iff.mp hc).1) .nil
    exact .inr ⟨by decide, .value hv.ne_nil hv.isTight (.gap hws₁ (.sign (.gap hws₂ hletter)))⟩
  | indirect hv hws₁ hws₂ =>
    exact .inr ⟨by decide,
      .sign (.gap hws₁ (.value hv.ne_nil hv.isTight (.gap hws₂ (.sign .nil))))⟩
  | indexedIndirect hv hws₁ hws₂ hws₃ hws₄ hc =>
    have hletter : Fits [.letter [letterX], .gap, .sign 0x29] ⟨[], letterX⟩ _ :=
      hc.fits List.mem_cons_self (.gap hws₄ (.sign .nil))
    exact .inr ⟨by decide, .sign (.gap hws₁ (.value hv.ne_nil hv.isTight
      (.gap hws₂ (.sign (.gap hws₃ hletter)))))⟩
  | indirectIndexed hv hws₁ hws₂ hws₃ hws₄ hc =>
    have hletter : Fits [.letter [letterY]] ⟨[], letterY⟩ _ :=
      hc.fits List.mem_cons_self .nil
    exact .inr ⟨by decide, .sign (.gap hws₁ (.value hv.ne_nil hv.isTight
      (.gap hws₂ (.sign (.gap hws₃ (.sign (.gap hws₄ hletter)))))))⟩

/-! ### Forms told apart -/

/-- The value of an immediate operand may hold anything but blanks by its
pattern; the other patterns are strict. -/
theorem unmarked_pattern (hform : form ≠ .immediate) : Unmarked (pattern form) := by
  have htight : ∀ b, isTight b = true → isMark b = false := fun _ => isMark_of_isTight
  have hletter : ∀ b, Byte.toUpper b = letterX ∨ Byte.toUpper b = letterY → isMark b = false := by
    intro b hb
    have hb : Letter b (Byte.toUpper b) := letter_iff.mpr ⟨hb, rfl⟩
    exact hb.isMark
  cases form <;> simp_all [pattern, Unmarked]

/-- The commas and parentheses of a production are the signs of its form. -/
theorem Produces.filter_isMark (h : Produces form v index s) :
    s.filter isMark = marks (pattern form) := by
  by_cases himmediate : form = .immediate
  · subst himmediate
    cases h with
    | immediate hv hws =>
      have hgap := filter_isMark_of_forall fun b hb => isMark_of_isBlank (hws b hb)
      rw [List.filter_cons_of_neg (by decide), List.filter_append, hgap, hv.filter_isMark]
      rfl
  · rcases h.fits with ⟨rfl, rfl, -⟩ | ⟨-, hfits⟩
    · exact h.isValueText.filter_isMark
    · exact hfits.filter_isMark (unmarked_pattern himmediate)

/-- A hash in front is for immediate operands. -/
theorem Produces.head?_eq_hash (h : Produces form v index s) :
    s.head? = some 0x23 ↔ form = .immediate := by
  have hvalue : ∀ tail, (v ++ tail).head? ≠ some 0x23 := by
    obtain ⟨b, rest, rfl, hb⟩ := h.isValueText.head
    intro tail heq
    cases heq
    rcases hb with hb | hb <;> cases hb
  cases h with
  | bare =>
    have hbare := hvalue []
    rw [List.append_nil] at hbare
    exact iff_of_false hbare Form.noConfusion
  | indexed => exact iff_of_false (hvalue _) Form.noConfusion
  | _ => simp

/-- **A production fits no pattern of another form.** -/
theorem Produces.eq_of_fits {form' : Form} (h : Produces form v index s)
    (hform' : form' ∈ patterned) (hfits : Fits (pattern form') found s) : form' = form := by
  by_cases himmediate : form' = .immediate
  · subst himmediate
    cases hfits
    exact (h.head?_eq_hash.mp rfl).symm
  · have hmarks := (hfits.filter_isMark (unmarked_pattern himmediate)).symm.trans h.filter_isMark
    -- the four other patterns have different signs, and there are some in each
    revert hmarks himmediate hform'
    cases form' <;> cases form <;> decide

theorem separated_gap {pieces : List Piece}
    (hblank : [0x20, 0x09, 0x0A, 0x0C, 0x0D].any (mayStart pieces) = false)
    (h : Separated pieces) : Separated (.gap :: pieces) := by
  refine ⟨?_, h⟩
  intro c hc
  simp only [Byte.isBlank, Bool.or_eq_true, beq_iff_eq] at hc
  apply eq_false_of_ne_true
  apply List.any_eq_false.mp hblank
  simpa [or_assoc] using hc

theorem separated_value {pieces : List Piece} {b : UInt8} (hb : isMark b = true)
    (h : Separated (.gap :: .sign b :: pieces)) :
    Separated (.value isTight :: .gap :: .sign b :: pieces) := by
  refine ⟨?_, h⟩
  intro c hc
  have hblank : Byte.isBlank c = false := by simpa [isSolid] using isSolid_of_isTight hc
  have hne : c ≠ b := by
    rintro rfl
    rw [isMark_of_isTight hc] at hb
    cases hb
  simpa [mayStart, hblank] using hne

/-- Behind a gap or a value of a pattern stands what belongs to neither. -/
theorem separated_pattern (form : Form) : Separated (pattern form) := by
  cases form with
  | immediate => exact separated_gap rfl ⟨fun _ _ => rfl, trivial⟩
  | indexed => exact separated_value rfl (separated_gap rfl (separated_gap rfl trivial))
  | indirect => exact separated_gap rfl (separated_value rfl (separated_gap rfl trivial))
  | indexedIndirect =>
    exact separated_gap rfl (separated_value rfl (separated_gap rfl
      (separated_gap rfl (separated_gap rfl trivial))))
  | indirectIndexed =>
    exact separated_gap rfl (separated_value rfl (separated_gap rfl
      (separated_gap rfl (separated_gap rfl trivial))))
  | bare => trivial
  | other => trivial

/-! ### Reading -/

/-- Where all answers agree, the first is the one. -/
theorem findSome?_eq_some_of_forall {α β : Type} {f : α → Option β} {l : List α} {b : β}
    (hall : ∀ a ∈ l, ∀ b', f a = some b' → b' = b) (hex : ∃ a ∈ l, f a = some b) :
    l.findSome? f = some b := by
  rcases h : l.findSome? f with - | b'
  · obtain ⟨a, ha, hb⟩ := hex
    rw [List.findSome?_eq_none_iff.mp h a ha] at hb
    cases hb
  · obtain ⟨a, ha, hb'⟩ := List.exists_of_findSome?_eq_some h
    rw [hall a ha b' hb']

variable {order : List Form}

/-- The shape that is found is a production if there is a value in it. -/
theorem produces_of_shapeIn (horder : ∀ form, form ∈ order ↔ form ∈ patterned)
    (hv : IsValueText (shapeIn order s).2.value) :
    Produces (shapeIn order s).1 (shapeIn order s).2.value (shapeIn order s).2.index s := by
  unfold shapeIn at hv ⊢
  rcases hfind : order.findSome? fun form => (fit? (pattern form) s).map fun found => (form, found)
    with - | shape
  · rw [hfind] at hv
    exact .bare hv
  · rw [hfind] at hv
    obtain ⟨form, hform, hfit⟩ := List.exists_of_findSome?_eq_some hfind
    obtain ⟨found, hfound, rfl⟩ := Option.map_eq_some_iff.mp hfit
    exact produces_of_fits ((horder form).mp hform) (fits_of_fit? hfound) hv

/-- **The shape of a production is found in any order.** -/
theorem Produces.shapeIn_eq (h : Produces form v index s)
    (horder : ∀ form, form ∈ order ↔ form ∈ patterned) :
    shapeIn order s = (form, ⟨v, index⟩) := by
  -- whatever pattern fits is that of the form
  have hothers : ∀ form' ∈ order, ∀ found, fit? (pattern form') s = some found → form' = form :=
    fun form' hform' found hfound =>
      h.eq_of_fits ((horder form').mp hform') (fits_of_fit? hfound)
  unfold shapeIn
  rcases h.fits with ⟨rfl, rfl, rfl⟩ | ⟨hform, hfits⟩
  · rw [List.findSome?_eq_none_iff.mpr]
    · rfl
    · intro form' hform'
      rw [Option.map_eq_none_iff, Option.eq_none_iff_forall_ne_some]
      intro found hfound
      obtain rfl := hothers form' hform' found hfound
      exact absurd ((horder _).mp hform') (by decide)
  · have hfit := hfits.fit?_eq (separated_pattern form)
    rw [findSome?_eq_some_of_forall]
    · rfl
    · intro form' hform' shape hshape
      obtain ⟨found, hfound, rfl⟩ := Option.map_eq_some_iff.mp hshape
      obtain rfl := hothers form' hform' found hfound
      rw [hfit] at hfound
      cases hfound
      rfl
    · exact ⟨form, (horder form).mpr hform, by rw [hfit]; rfl⟩

/-- **Reading is exact**, by the patterns in any order. -/
theorem parseIn?_eq_some_iff (horder : ∀ form, form ∈ order ↔ form ∈ patterned) {o : Operand} :
    parseIn? order s = some o ↔ o.raw = s ∧ Produces o.form o.value o.index s := by
  unfold parseIn?
  constructor
  · intro h
    rw [Option.ite_none_right_eq_some] at h
    obtain ⟨hv, ho⟩ := h
    cases ho
    exact ⟨rfl, produces_of_shapeIn horder (isValue_iff.mp hv)⟩
  · rintro ⟨rfl, hprod⟩
    simp only [hprod.shapeIn_eq horder, isValue_iff.mpr hprod.isValueText, if_true]

theorem parse?_eq_some_iff {o : Operand} :
    parse? s = some o ↔ o.raw = s ∧ Produces o.form o.value o.index s :=
  parseIn?_eq_some_iff fun _ => Iff.rfl

/-- **No text has two productions.** -/
theorem Produces.unique {form' : Form} {v' : Bytes} {index' : UInt8}
    (h : Produces form v index s) (h' : Produces form' v' index' s) :
    form = form' ∧ v = v' ∧ index = index' := by
  have heq := (h.shapeIn_eq fun _ => Iff.rfl).symm.trans (h'.shapeIn_eq fun _ => Iff.rfl)
  simpa using heq

/-! ### The forms one after the other -/

/-- **Forms may be tried in any order.**  A reader that knows the texts of
each form alone, and takes the first form that fits, reads the same. -/
theorem findSome?_eq_parse? {recognise : Form → Option (Bytes × UInt8)}
    (hrecognise : ∀ form v index, recognise form = some (v, index) ↔ Produces form v index s)
    {order : List Form} (horder : ∀ form, form ≠ .other → form ∈ order) :
    (order.findSome? fun form => (recognise form).map fun found =>
      (⟨form, found.1, found.2, s⟩ : Operand)) = parse? s := by
  rcases hparse : parse? s with - | o
  · rw [List.findSome?_eq_none_iff]
    intro form _
    rcases hform : recognise form with - | ⟨v, index⟩
    · rfl
    · -- a form that fits would have been read
      have hprod := (hrecognise form v index).mp hform
      have hread : parse? s = some ⟨form, v, index, s⟩ := parse?_eq_some_iff.mpr ⟨rfl, hprod⟩
      rw [hparse] at hread
      cases hread
  · obtain ⟨hraw, hprod⟩ := parse?_eq_some_iff.mp hparse
    apply findSome?_eq_some_of_forall
    · intro form _ o' ho'
      obtain ⟨⟨v, index⟩, hform, rfl⟩ := Option.map_eq_some_iff.mp ho'
      obtain ⟨rfl, rfl, rfl⟩ := ((hrecognise form v index).mp hform).unique hprod
      cases hraw
      rfl
    · refine ⟨o.form, horder o.form hprod.ne_other, ?_⟩
      rw [(hrecognise o.form o.value o.index).mpr hprod]
      cases hraw
      rfl

/-- **The grammar of operands is exact and unambiguous.**  Reading a text
gives an operand exactly if a production of its form generates the text from
its value and its index.  The text is kept as it stands.  No text has two
productions.  So the patterns may be tried in any order, and any other
recogniser of each form's texts, in any order, reads every text alike. -/
theorem parse?_grammar (s : Bytes) :
    (∀ o, parse? s = some o ↔ o.raw = s ∧ Produces o.form o.value o.index s) ∧
    (∀ form v index form' v' index', Produces form v index s → Produces form' v' index' s →
      form = form' ∧ v = v' ∧ index = index') ∧
    (∀ order : List Form, (∀ form, form ∈ order ↔ form ∈ patterned) →
      parseIn? order s = parse? s) ∧
    ∀ recognise : Form → Option (Bytes × UInt8),
      (∀ form v index, recognise form = some (v, index) ↔ Produces form v index s) →
      ∀ order : List Form, (∀ form, form ≠ .other → form ∈ order) →
        (order.findSome? fun form => (recognise form).map fun found =>
          (⟨form, found.1, found.2, s⟩ : Operand)) = parse? s := by
  refine ⟨fun _ => parse?_eq_some_iff, fun _ _ _ _ _ _ => Produces.unique, ?_,
    fun _ hrecognise _ horder => findSome?_eq_parse? hrecognise horder⟩
  intro order horder
  apply Option.ext
  intro o
  rw [parseIn?_eq_some_iff horder, parse?_eq_some_iff]

/-- Blanks of all kinds between the signs; the patterns tried from the last to
the first. -/
theorem parse?_grammar_blanks :
    ∃ s : Bytes, s = ascii "(\t$1f ,\nx )" ∧
      Produces .indexedIndirect (ascii "$1f") letterX s ∧
      parseIn? patterned.reverse s = some ⟨.indexedIndirect, ascii "$1f", letterX, s⟩ ∧
      ([Form.indirectIndexed, .bare, .indirect, .indexed, .immediate, .indexedIndirect].findSome?
        fun form => (if form = .indexedIndirect then some (ascii "$1f", letterX) else none).map
          fun found => (⟨form, found.1, found.2, s⟩ : Operand)) = parse? s := by
  obtain ⟨hiff, hunique, hreverse, horder⟩ := parse?_grammar (ascii "(\t$1f ,\nx )")
  have hparse : parse? (ascii "(\t$1f ,\nx )") =
      some ⟨.indexedIndirect, ascii "$1f", letterX, ascii "(\t$1f ,\nx )"⟩ := by
    decide +kernel
  have hprod := ((hiff _).mp hparse).2
  refine ⟨_, rfl, hprod, (hreverse _ fun _ => List.mem_reverse).trans hparse, horder _ ?_ _ ?_⟩
  · intro form v index
    constructor
    · intro h
      split at h
      · next hform =>
        cases h
        exact hform ▸ hprod
      · cases h
    · intro h
      obtain ⟨rfl, rfl, rfl⟩ := hunique _ _ _ _ _ _ h hprod
      rfl
  · intro form
    cases form <;> simp

end Operand

end Mos6502
