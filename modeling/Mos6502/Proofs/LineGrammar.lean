/-
Mos6502/Proofs/LineGrammar.lean

The grammar of a line, and that reading a line is exactly finding its place in
the grammar.  What is left of a line without comment and without white space
at its edges is written as

    name blanks ":" gap   name blanks ":" gap   ...   body

where the body is empty, a mnemonic, or a mnemonic, a space or tab, and an
operand.  A `Reading` is such a text taken apart, with every blank in its
place; `Reading.text` puts it together again.

Three kinds of white space meet here.  Blanks before a colon are the five
ASCII ones, a gap behind it is any white space, and only a space or tab ends a
mnemonic.  The readings that count (`Reading.Legal`) say so for each place.

* `takeLabels_legal` — the label loop takes a text apart legally;
* `takeLabels_text` — it takes a legal reading apart as it was put together;
* `Reading.eq_of_text` — no text has two legal readings;
* `parseLine_eq_node_iff` — a line gives a node exactly if it has a reading.
-/
import Mathlib.Data.List.TakeWhile
import Mos6502.Proofs.LineText
import Mos6502.Proofs.Trimming

namespace Mos6502

/-! ### Readings -/

/-- A label declaration as written: the name, blanks, a colon and a gap. -/
structure Declaration where
  name : Bytes
  /-- What stands between the name and the colon. -/
  blanks : Bytes
  /-- What stands between the colon and the next part of the line. -/
  gap : Bytes
deriving DecidableEq, Repr

/-- What follows the labels of a line, as written. -/
inductive Body where
  | nothing
  | mnemonic (name : Bytes)
  /-- A mnemonic, the byte that ends it, and the rest of the line. -/
  | operand (name : Bytes) (gap : UInt8) (text : Bytes)
deriving DecidableEq, Repr

/-- A line taken apart. -/
structure Reading where
  declarations : List Declaration
  body : Body
deriving DecidableEq, Repr

def Declaration.text (d : Declaration) : Bytes :=
  d.name ++ (d.blanks ++ 0x3A :: d.gap)

def Body.text : Body → Bytes
  | .nothing => []
  | .mnemonic name => name
  | .operand name gap text => name ++ gap :: text

/-- A line put together. -/
def Reading.text (r : Reading) : Bytes :=
  r.declarations.flatMap Declaration.text ++ r.body.text

/-- A declaration of the language. -/
structure Declaration.Legal (d : Declaration) : Prop where
  name : isIdentifier d.name = true
  blanks : ∀ b ∈ d.blanks, Byte.isBlank b = true
  gap : Text.White d.gap

/-- A body of the language: the operand is what is left of its text without
white space at the edges. -/
def Body.Legal : Body → Prop
  | .nothing => True
  | .mnemonic name => isIdentifier name = true
  | .operand name gap text => isIdentifier name = true ∧ (gap = 0x20 ∨ gap = 0x09) ∧
      ∃ s o, Text.Trims text s ∧ Operand.parse? s = some o

/-- A line of the language: no label is left in its body, and it is not
empty. -/
structure Reading.Legal (r : Reading) : Prop where
  declarations : ∀ d ∈ r.declarations, d.Legal
  body : r.body.Legal
  trimmed : Text.Trimmed r.body.text
  no_colon : 0x3A ∉ r.body.text
  labelled : r.body = .nothing → r.declarations ≠ []

/-- The node that a line stands for. -/
inductive Reading.Gives (number : Nat) : Reading → Node → Prop
  | labels {ds : List Declaration} :
      Gives number ⟨ds, .nothing⟩ (.label number (ds.map Declaration.name))
  | mnemonic {ds : List Declaration} {name : Bytes} :
      Gives number ⟨ds, .mnemonic name⟩
        (.instruction number (ds.map Declaration.name) name none)
  | operand {ds : List Declaration} {name text s : Bytes} {gap : UInt8} {o : Operand} :
      Text.Trims text s → Operand.parse? s = some o →
      Gives number ⟨ds, .operand name gap text⟩
        (.instruction number (ds.map Declaration.name) name (some o))

/-! ### One declaration -/

namespace Byte

variable {b : UInt8}

theorem isInk_of_isNameStart (h : isNameStart b = true) : isInk b = true :=
  isInk_of_isPlain (isPlain_of_isNamePart (isNamePart_of_isNameStart h))

end Byte

/-- A declaration is taken off the front exactly if one stands there. -/
theorem takeLabel?_eq_some_iff {s name after : Bytes} :
    takeLabel? s = some (name, after) ↔ isIdentifier name = true ∧
      ∃ blanks, (∀ b ∈ blanks, Byte.isBlank b = true) ∧ s = name ++ (blanks ++ 0x3A :: after) := by
  constructor
  · intro h
    cases s with
    | nil => cases h
    | cons b rest =>
      simp only [takeLabel?] at h
      split at h
      · next hstart =>
        split at h
        · next after' hskip =>
          simp only [Option.some.injEq, Prod.mk.injEq] at h
          obtain ⟨rfl, rfl⟩ := h
          refine ⟨?_, (rest.dropWhile Byte.isNamePart).takeWhile Byte.isBlank, ?_, ?_⟩
          · exact isIdentifier_iff.mpr ⟨b, _, rfl, hstart, fun c hc => List.mem_takeWhile_imp hc⟩
          · intro c hc
            exact List.mem_takeWhile_imp hc
          · rw [← hskip, skipBlanks, List.takeWhile_append_dropWhile, List.cons_append,
              List.takeWhile_append_dropWhile]
        · cases h
      · cases h
  · rintro ⟨hname, blanks, hblanks, rfl⟩
    have hhead : ∀ c ∈ (blanks ++ 0x3A :: after).head?, Byte.isNamePart c = false :=
      isNamePart_head hblanks rfl
    obtain ⟨b, rest, rfl, hb, hrest⟩ := isIdentifier_iff.mp hname
    have hskip : skipBlanks (blanks ++ 0x3A :: after) = 0x3A :: after := by
      apply dropWhile_append_of_head hblanks
      intro c hc
      cases hc
      rfl
    rw [List.cons_append, takeLabel?, if_pos hb, dropWhile_append_of_head hrest hhead,
      takeWhile_append_of_head hrest hhead, hskip]
    rfl

/-- Where there is no colon there is no declaration. -/
theorem takeLabel?_of_not_mem {s : Bytes} (h : 0x3A ∉ s) : takeLabel? s = none := by
  rcases hs : takeLabel? s with - | ⟨name, after⟩
  · rfl
  · obtain ⟨-, blanks, -, rfl⟩ := takeLabel?_eq_some_iff.mp hs
    simp at h

/-! ### The label loop -/

theorem takeLabels_of_some {s name after : Bytes} (h : takeLabel? s = some (name, after)) :
    takeLabels s =
      (name :: (takeLabels (Text.trim after)).1, (takeLabels (Text.trim after)).2) := by
  rw [takeLabels]
  split
  · next hnone =>
    rw [h] at hnone
    cases hnone
  · next hsome =>
    rw [h] at hsome
    cases hsome
    rfl

/-- A text that ends without white space has no part at its end that does. -/
theorem back_of_append {s t : Bytes} (h : ∀ u ∈ Text.blanks, ¬ u <:+ s ++ t) :
    ∀ u ∈ Text.blanks, ¬ u <:+ t := by
  intro u hu hsuffix
  exact h u hu (hsuffix.trans (List.suffix_append s t))

/-- A text that starts with a name has no white space in front. -/
theorem front_of_isInk {s : Bytes} (h : ∀ b ∈ s.head?, Byte.isInk b = true) :
    ∀ u ∈ Text.blanks, ¬ u <+: s := by
  intro u hu hprefix
  obtain ⟨b, rest, rfl⟩ := List.exists_cons_of_ne_nil (Text.prefixFree_blanks.ne_nil u hu)
  obtain ⟨more, rfl⟩ := hprefix
  have hink := h b rfl
  rw [Text.blanks_not_ink.1 _ hu b rfl] at hink
  cases hink

/-- **The label loop takes a trimmed text apart legally**: declarations, then
a trimmed rest. -/
theorem takeLabels_legal {s : Bytes} (hs : Text.Trimmed s) :
    ∃ ds : List Declaration, (∀ d ∈ ds, d.Legal) ∧
      (takeLabels s).1 = ds.map Declaration.name ∧
      s = ds.flatMap Declaration.text ++ (takeLabels s).2 ∧ Text.Trimmed (takeLabels s).2 := by
  fun_induction takeLabels s with
  | case1 s hnone => exact ⟨[], by simp, rfl, rfl, hs⟩
  | case2 s name after hsome names rest hrest ih =>
    obtain ⟨hname, blanks, hblanks, rfl⟩ := takeLabel?_eq_some_iff.mp hsome
    -- the line ends without white space, so the gap is all that is trimmed
    have hback : ∀ u ∈ Text.blanks, ¬ u <:+ after := by
      apply back_of_append (s := name ++ (blanks ++ [0x3A]))
      simpa using hs.back
    obtain ⟨gap, hgap, hafter⟩ := Text.exists_white_trim hback
    obtain ⟨ds, hds, hnames, htext, htrimmed⟩ := ih (Text.trims_trim after).1
    rw [hrest] at hnames htext htrimmed
    refine ⟨⟨name, blanks, gap⟩ :: ds, ?_, ?_, ?_, htrimmed⟩
    · intro d hd
      rcases List.mem_cons.mp hd with rfl | hd
      · exact ⟨hname, hblanks, hgap⟩
      · exact hds d hd
    · exact congrArg (name :: ·) hnames
    · rw [List.flatMap_cons, List.append_assoc, ← htext]
      simp [Declaration.text, ← hafter]

/-- What follows a gap has no white space in front: it is a declaration or the
trimmed rest. -/
theorem front_declarations {ds : List Declaration} (hds : ∀ d ∈ ds, d.Legal) {rest : Bytes}
    (hrest : Text.Trimmed rest) :
    ∀ u ∈ Text.blanks, ¬ u <+: ds.flatMap Declaration.text ++ rest := by
  cases ds with
  | nil => exact hrest.front
  | cons d ds =>
    obtain ⟨b, more, hname, hb, -⟩ := isIdentifier_iff.mp (hds d List.mem_cons_self).name
    apply front_of_isInk
    intro c hc
    rw [List.flatMap_cons, Declaration.text, hname] at hc
    cases hc
    exact Byte.isInk_of_isNameStart hb

/-- **The label loop takes a line apart as it was put together.** -/
theorem takeLabels_text {ds : List Declaration} (hds : ∀ d ∈ ds, d.Legal) {rest : Bytes}
    (hrest : Text.Trimmed rest) (hcolon : 0x3A ∉ rest)
    (hback : ∀ u ∈ Text.blanks, ¬ u <:+ ds.flatMap Declaration.text ++ rest) :
    takeLabels (ds.flatMap Declaration.text ++ rest) = (ds.map Declaration.name, rest) := by
  induction ds with
  | nil => exact takeLabels_of_none (takeLabel?_of_not_mem hcolon)
  | cons d ds ih =>
    have hd := hds d List.mem_cons_self
    have hds' := fun d' hd' => hds d' (List.mem_cons_of_mem d hd')
    have htext : (d :: ds).flatMap Declaration.text ++ rest =
        d.name ++ (d.blanks ++ 0x3A :: (d.gap ++ (ds.flatMap Declaration.text ++ rest))) := by
      simp [Declaration.text]
    rw [htext] at hback ⊢
    have hback' : ∀ u ∈ Text.blanks, ¬ u <:+ ds.flatMap Declaration.text ++ rest := by
      apply back_of_append (s := d.name ++ (d.blanks ++ 0x3A :: d.gap))
      simpa using hback
    -- trimming takes the gap and stops at the next part
    have htrim : Text.trim (d.gap ++ (ds.flatMap Declaration.text ++ rest)) =
        ds.flatMap Declaration.text ++ rest := by
      apply Text.trims_iff.mp
      exact ⟨⟨front_declarations hds' hrest, hback'⟩, d.gap, [], hd.gap, .nil, by simp⟩
    rw [takeLabels_of_some (takeLabel?_eq_some_iff.mpr ⟨hd.name, d.blanks, hd.blanks, rfl⟩),
      htrim, ih hds' hback']
    rfl

/-! ### One reading -/

/-- Two texts that start with a run of one class and go on outside it share
the run. -/
theorem append_inj_of_head {p : UInt8 → Bool} {s s' t t' : Bytes} (hs : ∀ c ∈ s, p c = true)
    (hs' : ∀ c ∈ s', p c = true) (ht : ∀ c ∈ t.head?, p c = false)
    (ht' : ∀ c ∈ t'.head?, p c = false) (h : s ++ t = s' ++ t') : s = s' ∧ t = t' := by
  have hrun := congrArg (List.takeWhile p) h
  rw [takeWhile_append_of_head hs ht, takeWhile_append_of_head hs' ht'] at hrun
  subst hrun
  exact ⟨rfl, List.append_cancel_left h⟩

theorem isNamePart_of_mem {name : Bytes} (h : isIdentifier name = true) :
    ∀ c ∈ name, Byte.isNamePart c = true := by
  obtain ⟨b, rest, rfl, hb, hrest⟩ := isIdentifier_iff.mp h
  intro c hc
  rcases List.mem_cons.mp hc with rfl | hc
  · exact Byte.isNamePart_of_isNameStart hb
  · exact hrest c hc

/-- The first declaration of a text is the only one that can stand there. -/
theorem Declaration.Legal.eq_of_text {d d' : Declaration} (hd : d.Legal) (hd' : d'.Legal)
    {t t' : Bytes} (ht : ∀ u ∈ Text.blanks, ¬ u <+: t) (ht' : ∀ u ∈ Text.blanks, ¬ u <+: t')
    (h : d.text ++ t = d'.text ++ t') : d = d' ∧ t = t' := by
  have hcolon : ∀ s : Bytes, ∀ c ∈ (0x3A :: s).head?, Byte.isBlank c = false := by
    intro s c hc
    cases hc
    rfl
  simp only [Declaration.text, List.append_assoc, List.cons_append] at h
  obtain ⟨hname, h⟩ := append_inj_of_head (isNamePart_of_mem hd.name)
    (isNamePart_of_mem hd'.name) (isNamePart_head hd.blanks rfl) (isNamePart_head hd'.blanks rfl) h
  obtain ⟨hblanks, h⟩ := append_inj_of_head hd.blanks hd'.blanks (hcolon _) (hcolon _) h
  have hgaps : d.gap ++ t = d'.gap ++ t' := (List.cons.inj h).2
  -- the gap is all the white space there is
  have hdrop := congrArg (Text.dropUnits Text.blanks) hgaps
  rw [Text.dropUnits_run Text.prefixFree_blanks hd.gap,
    Text.dropUnits_run Text.prefixFree_blanks hd'.gap,
    Text.dropUnits_of_none ((Text.unitAtFront?_eq_none_iff Text.prefixFree_blanks).mpr ht),
    Text.dropUnits_of_none ((Text.unitAtFront?_eq_none_iff Text.prefixFree_blanks).mpr ht')] at hdrop
  subst hdrop
  have hgap := List.append_cancel_right hgaps
  refine ⟨?_, rfl⟩
  obtain ⟨name, blanks, gap⟩ := d
  obtain ⟨name', blanks', gap'⟩ := d'
  cases hname
  cases hblanks
  cases hgap
  rfl

theorem declarations_eq_of_text {ds ds' : List Declaration} (hds : ∀ d ∈ ds, d.Legal)
    (hds' : ∀ d ∈ ds', d.Legal) {rest rest' : Bytes} (hrest : Text.Trimmed rest)
    (hrest' : Text.Trimmed rest') (hcolon : 0x3A ∉ rest) (hcolon' : 0x3A ∉ rest')
    (h : ds.flatMap Declaration.text ++ rest = ds'.flatMap Declaration.text ++ rest') :
    ds = ds' ∧ rest = rest' := by
  -- a declaration has a colon, and the rest has none
  have hmem : ∀ (d : Declaration) (more : List Declaration) (s : Bytes),
      0x3A ∈ (d :: more).flatMap Declaration.text ++ s := by
    intro d more s
    simp [Declaration.text]
  induction ds generalizing ds' with
  | nil =>
    cases ds' with
    | nil => exact ⟨rfl, h⟩
    | cons d' ds' =>
      rw [List.flatMap_nil, List.nil_append] at h
      rw [h] at hcolon
      exact absurd (hmem d' ds' rest') hcolon
  | cons d ds ih =>
    cases ds' with
    | nil =>
      rw [List.flatMap_nil, List.nil_append] at h
      rw [← h] at hcolon'
      exact absurd (hmem d ds rest) hcolon'
    | cons d' ds' =>
      have hmore := fun x hx => hds x (List.mem_cons_of_mem d hx)
      have hmore' := fun x hx => hds' x (List.mem_cons_of_mem d' hx)
      rw [List.flatMap_cons, List.flatMap_cons, List.append_assoc, List.append_assoc] at h
      obtain ⟨rfl, hnext⟩ := (hds d List.mem_cons_self).eq_of_text (hds' d' List.mem_cons_self)
        (front_declarations hmore hrest) (front_declarations hmore' hrest') h
      obtain ⟨rfl, rfl⟩ := ih hmore hmore' hnext
      exact ⟨rfl, rfl⟩

/-- A body is known from its text. -/
theorem Body.Legal.eq_of_text {b b' : Body} (hb : b.Legal) (hb' : b'.Legal)
    (h : b.text = b'.text) : b = b' := by
  have hgap : ∀ {gap : UInt8} (text : Bytes), gap = 0x20 ∨ gap = 0x09 →
      ∀ c ∈ (gap :: text).head?, Byte.isNamePart c = false := by
    intro gap text hgap c hc
    cases hc
    rcases hgap with rfl | rfl <;> rfl
  -- one body with an operand and one without would make a space a part of a name
  have hmixed : ∀ {name name' text : Bytes} {gap : UInt8}, isIdentifier name' = true →
      (gap = 0x20 ∨ gap = 0x09) → name ++ gap :: text ≠ name' := by
    rintro name name' text gap hname' hsep rfl
    have hpart := isNamePart_of_mem hname' gap (by simp)
    rw [hgap text hsep gap rfl] at hpart
    cases hpart
  cases b with
  | nothing =>
    cases b' with
    | nothing => rfl
    | mnemonic name =>
      cases h
      cases hb'
    | operand name gap text => simp [Body.text] at h
  | mnemonic name =>
    cases b' with
    | nothing =>
      cases h
      cases hb
    | mnemonic name' =>
      cases h
      rfl
    | operand name' gap text => exact absurd h.symm (hmixed hb hb'.2.1)
  | operand name gap text =>
    cases b' with
    | nothing => simp [Body.text] at h
    | mnemonic name' => exact absurd h (hmixed hb' hb.2.1)
    | operand name' gap' text' =>
      obtain ⟨rfl, hrest⟩ := append_inj_of_head (isNamePart_of_mem hb.1) (isNamePart_of_mem hb'.1)
        (hgap text hb.2.1) (hgap text' hb'.2.1) h
      cases hrest
      rfl

/-- **No text has two legal readings.** -/
theorem Reading.eq_of_text {r r' : Reading} (hr : r.Legal) (hr' : r'.Legal)
    (h : r.text = r'.text) : r = r' := by
  obtain ⟨hdeclarations, hbody⟩ := declarations_eq_of_text hr.declarations hr'.declarations
    hr.trimmed hr'.trimmed hr.no_colon hr'.no_colon h
  have hbody := hr.body.eq_of_text hr'.body hbody
  obtain ⟨ds, body⟩ := r
  obtain ⟨ds', body'⟩ := r'
  cases hdeclarations
  cases hbody
  rfl

/-! ### Mnemonics and operands -/

/-- The byte that ends a mnemonic is trimmed with the rest. -/
theorem trim_gap {gap : UInt8} (hgap : gap = 0x20 ∨ gap = 0x09) (text : Bytes) :
    Text.trim (gap :: text) = Text.trim text := by
  have hunit : [gap] ∈ Text.blanks := by
    rcases hgap with rfl | rfl <;> decide
  exact Text.trim_white_append (.unit hunit) text

/-- Where a mnemonic ends before the line does, it is followed by a space or
tab and something that is no white space. -/
theorem splitInstruction_cases {rest : Bytes} (hrest : Text.Trimmed rest) :
    splitInstruction rest = (rest, []) ∨
      ∃ name gap text, rest = name ++ gap :: text ∧ (gap = 0x20 ∨ gap = 0x09) ∧
        splitInstruction rest = (name, Text.trim text) ∧ Text.trim text ≠ [] := by
  rcases hdrop : rest.dropWhile (fun b => !(b == 0x20 || b == 0x09)) with - | ⟨gap, text⟩
  · left
    have hall := List.takeWhile_append_dropWhile (p := fun b => !(b == 0x20 || b == 0x09))
      (l := rest)
    rw [hdrop, List.append_nil] at hall
    simp only [splitInstruction, hdrop, hall]
    rw [Text.trims_iff.mp Text.trimmed_nil.trims]
  · right
    have hgap : gap = 0x20 ∨ gap = 0x09 := by
      have hhead := List.head?_dropWhile_not (fun b => !(b == 0x20 || b == 0x09)) rest
      rw [hdrop] at hhead
      by_contra hne
      simp_all
    have hsplit : rest = rest.takeWhile (fun b => !(b == 0x20 || b == 0x09)) ++ gap :: text := by
      rw [← hdrop, List.takeWhile_append_dropWhile]
    refine ⟨_, gap, text, hsplit, hgap, ?_, ?_⟩
    · simp only [splitInstruction, hdrop, trim_gap hgap]
    · -- else the line would end in white space
      intro hempty
      obtain ⟨-, before, after, hbefore, hafter, heq⟩ := Text.trims_trim (gap :: text)
      rw [trim_gap hgap, hempty, List.nil_append] at heq
      obtain ⟨u, hu, hsuffix⟩ := (hbefore.append hafter).exists_suffix
        (by rw [← heq]; exact List.cons_ne_nil gap text)
      apply hrest.back u hu
      rw [hsplit, heq]
      exact hsuffix.trans (List.suffix_append _ _)

/-- A legal operand is split off where it was put on. -/
theorem splitInstruction_text {name text : Bytes} {gap : UInt8} (hname : isIdentifier name = true)
    (hgap : gap = 0x20 ∨ gap = 0x09) :
    splitInstruction (name ++ gap :: text) = (name, Text.trim text) := by
  have hplain : ∀ b ∈ name, (!(b == 0x20 || b == 0x09)) = true := fun b hb =>
    not_gap_of_isPlain (isPlain_of_mem_identifier hname hb)
  have hend : ∀ b ∈ (gap :: text).head?, (!(b == 0x20 || b == 0x09)) = false := by
    intro b hb
    cases hb
    rcases hgap with rfl | rfl <;> rfl
  rw [splitInstruction, takeWhile_append_of_head hplain hend,
    dropWhile_append_of_head hplain hend, trim_gap hgap]

/-! ### Lines -/

theorem Text.trimmed_lineText (line : Bytes) : Text.Trimmed (lineText line) :=
  (Text.trims_trim _).1

/-- A line gives no node exactly if nothing is left of it. -/
theorem parseLine_eq_none_iff {number : Nat} {line : Bytes} :
    parseLine number line = .ok none ↔ lineText line = [] := by
  unfold parseLine
  constructor
  · intro h
    by_contra hne
    have hempty : (lineText line).isEmpty = false := by simpa using hne
    simp only [hempty, Bool.false_eq_true, if_false] at h
    repeat' split at h
    all_goals cases h
  · intro h
    rw [h]
    rfl

/-- A reading of a line is not empty. -/
theorem Reading.Legal.text_ne_nil {r : Reading} (hr : r.Legal) : r.text ≠ [] := by
  obtain ⟨ds, body⟩ := r
  cases ds with
  | nil =>
    cases body with
    | nothing => exact absurd rfl (hr.labelled rfl)
    | mnemonic name =>
      rintro h
      cases h
      cases hr.body
    | operand name gap text => simp [Reading.text, Body.text]
  | cons d ds => simp [Reading.text, Declaration.text]

/-- A line that gives a node has a reading. -/
theorem exists_reading {number : Nat} {line : Bytes} {node : Node}
    (h : parseLine number line = .ok (some node)) :
    ∃ r : Reading, r.text = lineText line ∧ r.Legal ∧ r.Gives number node := by
  have hne : lineText line ≠ [] := by
    intro hnil
    rw [parseLine_eq_none_iff.mpr hnil] at h
    cases h
  have hempty : (lineText line).isEmpty = false := by simpa using hne
  obtain ⟨ds, hds, hnames, htext, htrimmed⟩ := takeLabels_legal (Text.trimmed_lineText line)
  simp only [parseLine, hempty, Bool.false_eq_true, if_false, hnames] at h
  generalize (takeLabels (lineText line)).2 = rest at h htext htrimmed
  split at h
  · cases h
  · next hcontains =>
    have hcolon : 0x3A ∉ rest := by simpa using hcontains
    split at h
    · -- only labels
      next hrest =>
      have hrest : rest = [] := by simpa using hrest
      cases h
      subst hrest
      refine ⟨⟨ds, .nothing⟩, htext.symm, ⟨hds, trivial, htrimmed, hcolon, ?_⟩, .labels⟩
      rintro - rfl
      exact hne htext
    · split at h
      · cases h
      · next hmnemonic =>
        have hmnemonic : isIdentifier (splitInstruction rest).1 = true := by simpa using hmnemonic
        rcases splitInstruction_cases htrimmed with hsplit | ⟨name, gap, text, rfl, hgap, hsplit, hop⟩
        · -- a mnemonic alone
          rw [hsplit] at hmnemonic h
          cases h
          exact ⟨⟨ds, .mnemonic rest⟩, htext.symm,
            ⟨hds, hmnemonic, htrimmed, hcolon, by simp⟩, .mnemonic⟩
        · -- a mnemonic and its operand
          have hop' : (Text.trim text).isEmpty = false := by simpa using hop
          rw [hsplit] at hmnemonic h
          simp only [hop', Bool.false_eq_true, if_false] at h
          split at h
          · next o ho =>
            cases h
            have htrims := Text.trims_trim text
            exact ⟨⟨ds, .operand name gap text⟩, htext.symm,
              ⟨hds, ⟨hmnemonic, hgap, _, o, htrims, ho⟩, htrimmed, hcolon, by simp⟩,
              .operand htrims ho⟩
          · cases h

/-- A line with a reading gives its node. -/
theorem parseLine_of_reading {number : Nat} {line : Bytes} {node : Node} {r : Reading}
    (htext : r.text = lineText line) (hr : r.Legal) (hnode : r.Gives number node) :
    parseLine number line = .ok (some node) := by
  have hempty : (lineText line).isEmpty = false := by
    rw [← htext]
    simpa using hr.text_ne_nil
  have hlabels : takeLabels (lineText line) =
      (r.declarations.map Declaration.name, r.body.text) := by
    rw [← htext]
    apply takeLabels_text hr.declarations hr.trimmed hr.no_colon
    show ∀ u ∈ Text.blanks, ¬ u <:+ r.text
    rw [htext]
    exact (Text.trimmed_lineText line).back
  have hcolon : r.body.text.contains 0x3A = false := by simpa using hr.no_colon
  have hbody := hr.body
  have hname : ∀ {name : Bytes}, isIdentifier name = true → ∀ t : Bytes,
      (name ++ t).isEmpty = false := by
    rintro (- | ⟨b, name⟩) hname t
    · cases hname
    · rfl
  simp only [parseLine, hempty, hlabels, hcolon, Bool.false_eq_true, if_false]
  cases hnode with
  | labels => rfl
  | @mnemonic ds name =>
    have hne := hname hbody []
    rw [List.append_nil] at hne
    have hsplit : splitInstruction name = (name, []) := splitInstruction_mnemonic fun b hb =>
      isPlain_of_mem_identifier hbody hb
    have hid : isIdentifier name = true := hbody
    simp [Body.text, hsplit, hid, hne]
  | @operand ds name text s gap o htrims ho =>
    have hid : isIdentifier name = true := hbody.1
    have hne := hname hid (gap :: text)
    have hs : Text.trim text = s := Text.trims_iff.mp htrims
    have hs' : s.isEmpty = false := by
      cases s with
      | nil => cases ho
      | cons => rfl
    simp only [Body.text, hne, splitInstruction_text hid hbody.2.1, hid, hs, hs', ho]
    rfl

/-- **A line gives a node exactly if it has a reading that stands for it.** -/
theorem parseLine_eq_node_iff {number : Nat} {line : Bytes} {node : Node} :
    parseLine number line = .ok (some node) ↔
      ∃ r : Reading, r.text = lineText line ∧ r.Legal ∧ r.Gives number node :=
  ⟨exists_reading, fun ⟨_, htext, hr, hnode⟩ => parseLine_of_reading htext hr hnode⟩

/-- Every legal reading stands for a node. -/
theorem Reading.Legal.exists_gives {r : Reading} (hr : r.Legal) (number : Nat) :
    ∃ node, r.Gives number node := by
  have hbody := hr.body
  obtain ⟨ds, body⟩ := r
  cases body with
  | nothing => exact ⟨_, .labels⟩
  | mnemonic name => exact ⟨_, .mnemonic⟩
  | operand name gap text =>
    obtain ⟨-, -, s, o, htrims, ho⟩ := hbody
    exact ⟨_, .operand htrims ho⟩

/-- **Reading a line is exactly its grammar.**  Let `t` be the line up to its
comment, without white space at its edges.

* The line gives no node exactly if `t` is empty.
* It gives a node exactly if `t` has a legal reading that stands for the node,
  and `t` has at most one legal reading.
* It gives an error exactly if `t` is neither empty nor has a legal reading,
  and the error says that the line is malformed.
* Each round of the label loop leaves a shorter text. -/
theorem parseLine_grammar (number : Nat) {line t : Bytes}
    (ht : Text.Trims (line.takeWhile (· != 0x3B)) t) :
    (parseLine number line = .ok none ↔ t = []) ∧
    (∀ node, parseLine number line = .ok (some node) ↔
      ∃ r : Reading, r.text = t ∧ r.Legal ∧ r.Gives number node) ∧
    (∀ r r' : Reading, r.text = t → r'.text = t → r.Legal → r'.Legal → r = r') ∧
    ((∃ e, parseLine number line = .error e ∧ Diagnostic.fault e = .malformed) ↔
      t ≠ [] ∧ ∀ r : Reading, r.text = t → ¬ r.Legal) ∧
    ∀ s name after, takeLabel? s = some (name, after) →
      (Text.trim after).length < s.length := by
  have hline : lineText line = t := Text.trims_iff.mp ht
  subst hline
  refine ⟨parseLine_eq_none_iff, fun node => parseLine_eq_node_iff, ?_, ⟨?_, ?_⟩, ?_⟩
  · intro r r' hr hr' hlegal hlegal'
    exact Reading.eq_of_text hlegal hlegal' (hr.trans hr'.symm)
  · rintro ⟨e, herror, -⟩
    constructor
    · intro hnil
      rw [parseLine_eq_none_iff.mpr hnil] at herror
      cases herror
    · intro r htext hr
      obtain ⟨node, hnode⟩ := hr.exists_gives number
      rw [parseLine_of_reading htext hr hnode] at herror
      cases herror
  · rintro ⟨hne, hnone⟩
    rcases h : parseLine number line with e | - | node
    · exact ⟨e, rfl, rfl⟩
    · exact absurd (parseLine_eq_none_iff.mp h) hne
    · obtain ⟨r, htext, hr, -⟩ := parseLine_eq_node_iff.mp h
      exact absurd hr (hnone r htext)
  · intro s name after h
    have hafter := takeLabel?_length h
    have htrim := Text.trim_length_le after
    omega

/-- Two labels, a form feed before one colon and a no-break space behind the
other, and an operand with its comment. -/
theorem parseLine_grammar_gaps :
    ∃ line : Bytes, line = ascii " in\x0c:" ++ [0xC2, 0xA0] ++ ascii "b :\tLDA\t #$1F ; c" ∧
      ∃ t, Text.Trims (line.takeWhile (· != 0x3B)) t ∧
        ∃ r : Reading, r.text = t ∧ r.Legal ∧
          r.Gives 3 (.instruction 3 [ascii "in", ascii "b"] (ascii "LDA")
            (some ⟨.immediate, ascii "$1F", 0, ascii "#$1F"⟩)) := by
  have ht : Text.Trims ((ascii " in\x0c:" ++ [0xC2, 0xA0] ++ ascii "b :\tLDA\t #$1F ; c").takeWhile
      (· != 0x3B)) (ascii "in\x0c:" ++ [0xC2, 0xA0] ++ ascii "b :\tLDA\t #$1F") :=
    Text.trims_iff.mpr (by decide +kernel)
  have hline := ((parseLine_grammar 3 ht).2.1 (.instruction 3 [ascii "in", ascii "b"] (ascii "LDA")
    (some ⟨.immediate, ascii "$1F", 0, ascii "#$1F"⟩))).mp (by decide +kernel)
  exact ⟨_, rfl, _, ht, hline⟩

end Mos6502
