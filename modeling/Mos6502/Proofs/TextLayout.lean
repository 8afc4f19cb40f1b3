/-
Mos6502/Proofs/TextLayout.lean

What the reading of a text does not see.  A line counts only by what is left of
it without comment and without white space at its edges (`parse_congr`).  So it
makes no difference

* whether lines end with a line feed or with a carriage return in front of it;
* which comments stand at the end of lines;
* which spaces and tabs stand at the edges of lines,

for any bytes, stray carriage returns and broken characters among them.  Each
of these is an `Edit` of the text.  `Edit.lineTexts` is the step: an edit keeps
the number of lines and what counts of each.  `parse_edits` takes it through
any number of edits.

A carriage return in front of a line feed is part of the line here, and white
space.  To take the two for one line feed before the lines are split gives the
same nodes: this is the edit `withoutReturns`.
-/
import Mathlib.Logic.Relation
import Mos6502.Proofs.LineText
import Mos6502.Proofs.Trimming

namespace Mos6502

/-! ### Edits -/

/-- A text with a carriage return in front of every line feed. -/
def withReturns (source : Bytes) : Bytes :=
  source.flatMap fun b => if b = 0x0A then [0x0D, 0x0A] else [b]

/-- A text with a line feed for every carriage return and line feed. -/
def withoutReturns : Bytes → Bytes
  | 0x0D :: 0x0A :: rest => 0x0A :: withoutReturns rest
  | b :: rest => b :: withoutReturns rest
  | [] => []

/-- The two ways to see where a line ends: a carriage return that stands there
belongs to the line, or to what ends it. -/
def IsEnding (ending : Bytes) : Prop :=
  ending = [] ∨ ending = [0x0D]

/-- A line and the same line touched up. -/
inductive LineEdit : Bytes → Bytes → Prop
  | untouched (line : Bytes) : LineEdit line line
  /-- A comment at the end. -/
  | comment {line ending text : Bytes} : IsEnding ending → 0x0A ∉ text →
      LineEdit (line ++ ending) (line ++ (0x3B :: text ++ ending))
  /-- Spaces and tabs at either edge. -/
  | blanks {line ending left right : Bytes} : IsEnding ending →
      (∀ b ∈ left, b = 0x20 ∨ b = 0x09) → (∀ b ∈ right, b = 0x20 ∨ b = 0x09) →
      LineEdit (line ++ ending) (left ++ (line ++ (right ++ ending)))

/-- A text and the same text laid out in another way. -/
inductive Edit : Bytes → Bytes → Prop
  | returns (source : Bytes) : Edit source (withReturns source)
  | feeds (source : Bytes) : Edit source (withoutReturns source)
  /-- Any of the lines touched up. -/
  | touch {old new : List Bytes} : (∀ line ∈ old, 0x0A ∉ line) → List.Forall₂ LineEdit old new →
      Edit ([0x0A].intercalate old) ([0x0A].intercalate new)

/-! ### What counts of a line -/

/-- Bytes that may stand at the edges of a line: spaces, tabs and carriage
returns. -/
def IsMargin (s : Bytes) : Prop :=
  ∀ b ∈ s, b = 0x20 ∨ b = 0x09 ∨ b = 0x0D

section Margins

variable {s t : Bytes}

theorem isMargin_of_blank (h : ∀ b ∈ s, b = 0x20 ∨ b = 0x09) : IsMargin s :=
  fun b hb => (h b hb).imp_right .inl

theorem IsEnding.isMargin (h : IsEnding s) : IsMargin s := by
  rcases h with rfl | rfl
  · exact fun b hb => absurd hb List.not_mem_nil
  · exact fun b hb => .inr (.inr (List.mem_singleton.mp hb))

theorem IsMargin.append (hs : IsMargin s) (ht : IsMargin t) : IsMargin (s ++ t) := fun b hb =>
  (List.mem_append.mp hb).elim (hs b) (ht b)

theorem IsMargin.white (h : IsMargin s) : Text.White s := by
  induction s with
  | nil => exact .nil
  | cons b rest ih =>
    have hunit : [b] ∈ Text.blanks := by
      rcases h b List.mem_cons_self with rfl | rfl | rfl <;> decide
    exact .cons hunit (ih fun c hc => h c (List.mem_cons_of_mem b hc))

/-- No byte of a margin starts a comment. -/
theorem IsMargin.ne_semicolon (h : IsMargin s) : ∀ b ∈ s, (b != 0x3B) = true := by
  intro b hb
  rcases h b hb with rfl | rfl | rfl <;> rfl

end Margins

/-- From the first semicolon on nothing counts. -/
theorem lineText_comment (line text : Bytes) : lineText (line ++ 0x3B :: text) = lineText line := by
  have hcut : (line ++ 0x3B :: text).takeWhile (· != 0x3B) = line.takeWhile (· != 0x3B) := by
    induction line with
    | nil => rfl
    | cons b rest ih => rw [List.cons_append, List.takeWhile_cons, List.takeWhile_cons, ih]
  rw [lineText, lineText, hcut]

/-- Margins do not count, whether the line has a comment or not. -/
theorem lineText_margins {left line right : Bytes} (hleft : IsMargin left)
    (hright : IsMargin right) : lineText (left ++ (line ++ right)) = lineText line := by
  by_cases hcomment : 0x3B ∈ line
  · -- the right margin is part of the comment
    obtain ⟨code, text, rfl, -⟩ := List.eq_append_cons_of_mem hcomment
    have hsplit : left ++ (code ++ 0x3B :: text ++ right) =
        (left ++ code) ++ 0x3B :: (text ++ right) := by simp
    rw [hsplit, lineText_comment, lineText_comment, lineText,
      List.takeWhile_append_of_pos hleft.ne_semicolon, Text.trim_white_append hleft.white]
    rfl
  · have hline : ∀ b ∈ line, (b != 0x3B) = true := by
      intro b hb
      rw [bne_iff_ne]
      rintro rfl
      exact hcomment hb
    rw [lineText, lineText, List.takeWhile_append_of_pos hleft.ne_semicolon,
      List.takeWhile_append_of_pos hline, takeWhile_of_forall hright.ne_semicolon,
      takeWhile_of_forall hline, Text.trim_white_append hleft.white,
      Text.trim_append_white hright.white]

theorem lineText_append_margin {line right : Bytes} (hright : IsMargin right) :
    lineText (line ++ right) = lineText line :=
  lineText_margins (IsEnding.isMargin (.inl rfl)) hright

namespace LineEdit

variable {line line' : Bytes}

/-- What counts of a line stays when the line is touched up. -/
theorem lineText_eq (h : LineEdit line line') : lineText line' = lineText line := by
  cases h with
  | untouched => rfl
  | comment hending _ =>
    rw [List.cons_append, lineText_comment, lineText_append_margin hending.isMargin]
  | blanks hending hleft hright =>
    have hmargin := (isMargin_of_blank hright).append hending.isMargin
    rw [lineText_margins (isMargin_of_blank hleft) hmargin,
      lineText_append_margin hending.isMargin]

/-- A line that is touched up stays one line. -/
theorem lineFeed_not_mem (h : LineEdit line line') (hline : 0x0A ∉ line) : 0x0A ∉ line' := by
  have hblank : ∀ {s : Bytes}, (∀ b ∈ s, b = 0x20 ∨ b = 0x09) → 0x0A ∉ s := by
    intro s hs hmem
    rcases hs _ hmem with h | h <;> cases h
  cases h with
  | untouched => exact hline
  | comment _ htext => simp_all
  | blanks _ hleft hright =>
    have := hblank hleft
    have := hblank hright
    simp_all

theorem lineFeed_not_mem_of_forall₂ {old new : List Bytes} (h : List.Forall₂ LineEdit old new)
    (hold : ∀ line ∈ old, 0x0A ∉ line) : ∀ line ∈ new, 0x0A ∉ line := by
  induction h with
  | nil => exact hold
  | cons hline _ ih =>
    rw [List.forall_mem_cons] at hold ⊢
    exact ⟨hline.lineFeed_not_mem hold.1, ih hold.2⟩

end LineEdit

/-! ### What counts of a text -/

theorem lines_lineFeed (source : Bytes) : lines (0x0A :: source) = [] :: lines source := by
  rw [lines, List.splitOnP_cons_eq_if_modifyHead, if_pos (beq_self_eq_true _)]
  rfl

theorem lines_cons {b : UInt8} (hb : b ≠ 0x0A) (source : Bytes) :
    lines (b :: source) = (lines source).modifyHead (b :: ·) := by
  rw [lines, List.splitOnP_cons_eq_if_modifyHead, if_neg (by simpa using hb)]
  rfl

theorem lines_intercalate {ls : List Bytes} (hls : ∀ line ∈ ls, 0x0A ∉ line) (hne : ls ≠ []) :
    lines ([0x0A].intercalate ls) = ls :=
  List.splitOn_intercalate 0x0A hls hne

/-- A line, perhaps with a carriage return at its end. -/
def Returned (line line' : Bytes) : Prop :=
  line' = line ∨ line' = line ++ [0x0D]

theorem Returned.lineText_eq {line line' : Bytes} (h : Returned line line') :
    lineText line' = lineText line := by
  rcases h with rfl | rfl
  · rfl
  · exact lineText_append_margin (IsEnding.isMargin (.inr rfl))

/-- The same byte in front of the first lines. -/
theorem forall₂_returned_cons (b : UInt8) {ls ls' : List Bytes} (h : List.Forall₂ Returned ls ls') :
    List.Forall₂ Returned (ls.modifyHead (b :: ·)) (ls'.modifyHead (b :: ·)) := by
  cases h with
  | nil => exact .nil
  | @cons line line' _ _ hline hrest =>
    refine .cons ?_ hrest
    rcases hline with rfl | rfl
    · exact .inl rfl
    · exact .inr rfl

theorem lines_withReturns (source : Bytes) :
    List.Forall₂ Returned (lines source) (lines (withReturns source)) := by
  unfold withReturns
  induction source with
  | nil => exact .cons (.inl rfl) .nil
  | cons b rest ih =>
    rw [List.flatMap_cons]
    by_cases hb : b = 0x0A
    -- the carriage return becomes the end of the line before
    · rw [if_pos hb, hb, lines_lineFeed, List.cons_append, lines_cons (by decide), List.cons_append,
        List.nil_append, lines_lineFeed]
      exact .cons (.inr rfl) ih
    · rw [if_neg hb, lines_cons hb, List.cons_append, List.nil_append, lines_cons hb]
      exact forall₂_returned_cons b ih

theorem lines_withoutReturns (source : Bytes) :
    List.Forall₂ Returned (lines (withoutReturns source)) (lines source) := by
  fun_induction withoutReturns source with
  | case1 rest ih =>
    rw [lines_lineFeed, lines_cons (by decide), lines_lineFeed]
    exact .cons (.inr rfl) ih
  | case2 b rest _ ih =>
    by_cases hb : b = 0x0A
    · rw [hb, lines_lineFeed, lines_lineFeed]
      exact .cons (.inl rfl) ih
    · rw [lines_cons hb, lines_cons hb]
      exact forall₂_returned_cons b ih
  | case3 => exact .cons (.inl rfl) .nil

theorem map_lineText_of_forall₂ {R : Bytes → Bytes → Prop} {ls ls' : List Bytes}
    (hR : ∀ {line line'}, R line line' → lineText line' = lineText line)
    (h : List.Forall₂ R ls ls') : ls'.map lineText = ls.map lineText := by
  induction h with
  | nil => rfl
  | cons hline _ ih => rw [List.map_cons, List.map_cons, hR hline, ih]

/-- **The step**: an edit keeps the number of lines and what counts of each. -/
theorem Edit.lineTexts {source edited : Bytes} (h : Edit source edited) :
    (lines edited).map lineText = (lines source).map lineText := by
  cases h with
  | returns => exact map_lineText_of_forall₂ Returned.lineText_eq (lines_withReturns source)
  -- the edited text is the one without carriage returns
  | feeds => exact (map_lineText_of_forall₂ Returned.lineText_eq (lines_withoutReturns source)).symm
  | @touch old new hold htouched =>
    have hempty : new = [] ↔ old = [] := by
      rw [← List.length_eq_zero_iff, ← List.length_eq_zero_iff, htouched.length_eq]
    by_cases hne : old = []
    · rw [hempty.mpr hne, hne]
    · rw [lines_intercalate (LineEdit.lineFeed_not_mem_of_forall₂ htouched hold) (mt hempty.mp hne),
        lines_intercalate hold hne]
      exact map_lineText_of_forall₂ LineEdit.lineText_eq htouched

/-- Numbered lines are read alike if each counts alike under its number. -/
theorem mapM_zipIdx_congr {f : Bytes × Nat → Except ParseError (Option Node)}
    (hf : ∀ {line line' : Bytes} (number : Nat), lineText line' = lineText line →
      f (line', number) = f (line, number)) {ls ls' : List Bytes}
    (h : ls'.map lineText = ls.map lineText) (start : Nat) :
    (ls'.zipIdx start).mapM f = (ls.zipIdx start).mapM f := by
  -- the numbering is generalised for the induction
  induction ls generalizing ls' start with
  | nil => rw [List.map_eq_nil_iff.mp h]
  | cons line rest ih =>
    obtain ⟨line', rest', rfl, hline, hrest⟩ := List.map_eq_cons_iff.mp h
    rw [List.zipIdx_cons, List.zipIdx_cons, List.mapM_cons, List.mapM_cons, hf start hline,
      ih hrest (start + 1)]

/-- A text counts by what counts of its lines. -/
theorem parse_congr {source edited : Bytes}
    (h : (lines edited).map lineText = (lines source).map lineText) :
    parse edited = parse source := by
  have hcount : (lines edited).length = (lines source).length := by
    simpa using congrArg List.length h
  rw [parse, parse, mapM_zipIdx_congr ?_ h, hcount]
  intro line line' number hline
  show parseLine number line' = parseLine number line
  rw [parseLine, parseLine, hline]

/-- **Reading does not see how a text is laid out**: after any edits it gives
the same nodes, with the same line numbers, or the same error. -/
theorem parse_edits {source edited : Bytes} (h : Relation.ReflTransGen Edit source edited) :
    parse edited = parse source := by
  induction h with
  | refl => rfl
  | tail _ hstep ih => rw [parse_congr hstep.lineTexts, ih]

/-- Lines with stray carriage returns, and a comment that breaks off inside a
character. -/
def raggedLines : List Bytes :=
  [ascii "go:\r lda #$10;" ++ [0xC2], ascii "inx\r", []]

/-- The same lines with a margin and with comments, one of which starts inside a
character. -/
def raggedEdited : List Bytes :=
  [ascii "\t go:\r lda #$10;" ++ [0xC2] ++ ascii " ", ascii "inx;" ++ [0x80] ++ ascii "\r",
    ascii ";\r\r"]

theorem parse_edits_ragged :
    Relation.ReflTransGen Edit ([0x0A].intercalate raggedLines)
        (withReturns ([0x0A].intercalate raggedEdited)) ∧
      parse (withReturns ([0x0A].intercalate raggedEdited)) =
        parse ([0x0A].intercalate raggedLines) := by
  have hmargin : LineEdit (ascii "go:\r lda #$10;" ++ [0xC2])
      (ascii "\t go:\r lda #$10;" ++ [0xC2] ++ ascii " ") :=
    @LineEdit.blanks (ascii "go:\r lda #$10;" ++ [0xC2]) [] (ascii "\t ") (ascii " ") (.inl rfl)
      (by decide +kernel) (by decide +kernel)
  have hbefore : LineEdit (ascii "inx\r") (ascii "inx;" ++ [0x80] ++ ascii "\r") :=
    @LineEdit.comment (ascii "inx") [0x0D] [0x80] (.inr rfl) (by decide +kernel)
  have hempty : LineEdit [] (ascii ";\r\r") :=
    @LineEdit.comment [] [] (ascii "\r\r") (.inl rfl) (by decide +kernel)
  have htouch : Edit ([0x0A].intercalate raggedLines) ([0x0A].intercalate raggedEdited) :=
    .touch (by decide +kernel) (.cons hmargin (.cons hbefore (.cons hempty .nil)))
  have h := Relation.ReflTransGen.tail (.single htouch) (.returns _)
  exact ⟨h, parse_edits h⟩

end Mos6502
