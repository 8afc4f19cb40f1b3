/-
Mos6502/Proofs/LineText.lean

Reading lines that were written by rule.  A written line is an indentation of
spaces, a mnemonic, and perhaps one space and an operand; or it is a name and
a colon.  Apart from these separators it consists of plain bytes: visible
ASCII characters other than the colon and the semicolon.

* `Text.trim_indented` — trimming takes the indentation off and stops at the
  first visible character from either side;
* `parseLine_instruction`, `parseLine_mnemonic`, `parseLine_label` — the three
  kinds of line;
* `parse_line`, `parse_joined` — a text of one line without a line feed, and a
  text whose lines can all be read, each with its line feed, give their nodes
  in order.
-/
import Mos6502.Proofs.Fallible
import Mos6502.Source.Line

namespace Mos6502

/-! ### Visible characters -/

namespace Byte

/-- A visible ASCII character. -/
def isInk (b : UInt8) : Bool :=
  0x21 ≤ b && b ≤ 0x7E

/-- A visible character that separates nothing on a line: no colon and no
semicolon. -/
def isPlain (b : UInt8) : Bool :=
  isInk b && b != 0x3A && b != 0x3B

variable {b : UInt8}

theorem isInk_iff : isInk b = true ↔ 0x21 ≤ b.toNat ∧ b.toNat ≤ 0x7E := by
  simp [isInk, UInt8.le_iff_toNat_le]

theorem isPlain_iff :
    isPlain b = true ↔ (0x21 ≤ b.toNat ∧ b.toNat ≤ 0x7E) ∧ b.toNat ≠ 0x3A ∧ b.toNat ≠ 0x3B := by
  simp [isPlain, isInk_iff, ← UInt8.toNat_inj, and_assoc]

theorem isInk_of_isPlain (h : isPlain b = true) : isInk b = true := by
  rw [isPlain_iff] at h
  rw [isInk_iff]
  exact h.1

theorem isPlain_of_isNamePart (h : isNamePart b = true) : isPlain b = true := by
  simp only [isNamePart, isNameStart, isLetter, isDigit, Bool.or_eq_true, Bool.and_eq_true,
    decide_eq_true_eq, beq_iff_eq, UInt8.le_iff_toNat_le, ← UInt8.toNat_inj,
    UInt8.reduceToNat] at h
  rw [isPlain_iff]
  omega

theorem isNamePart_of_isNameStart (h : isNameStart b = true) : isNamePart b = true := by
  rw [isNamePart, h, Bool.true_or]

theorem isBlank_of_isInk (h : isInk b = true) : isBlank b = false := by
  rw [isInk_iff] at h
  rw [Bool.eq_false_iff]
  intro hblank
  simp only [isBlank, Bool.or_eq_true, beq_iff_eq, ← UInt8.toNat_inj,
    UInt8.reduceToNat] at hblank
  omega

theorem isNamePart_of_isBlank (h : isBlank b = true) : isNamePart b = false := by
  rw [Bool.eq_false_iff]
  intro hpart
  rw [isBlank_of_isInk (isInk_of_isPlain (isPlain_of_isNamePart hpart))] at h
  cases h

end Byte

theorem ne_of_isPlain {b c : UInt8} (h : Byte.isPlain b = true) (hc : Byte.isPlain c = false) :
    b ≠ c := by
  rintro rfl
  rw [h] at hc
  cases hc

/-- An identifier is a byte that may start a name and bytes that may continue
it. -/
theorem isIdentifier_iff {name : Bytes} :
    isIdentifier name = true ↔ ∃ b rest, name = b :: rest ∧ Byte.isNameStart b = true ∧
      ∀ c ∈ rest, Byte.isNamePart c = true := by
  rcases name with - | ⟨b, rest⟩ <;> simp [isIdentifier]

theorem isPlain_of_mem_identifier {name : Bytes} (h : isIdentifier name = true) {c : UInt8}
    (hc : c ∈ name) : Byte.isPlain c = true := by
  obtain ⟨b, rest, rfl, hb, hrest⟩ := isIdentifier_iff.mp h
  apply Byte.isPlain_of_isNamePart
  rcases List.mem_cons.mp hc with rfl | hc
  · exact Byte.isNamePart_of_isNameStart hb
  · exact hrest c hc

/-! ### Trimming -/

namespace Text

/-- A text that is empty or starts and ends with visible characters. -/
def Inked (s : Bytes) : Prop :=
  (∀ b ∈ s.head?, Byte.isInk b = true) ∧ ∀ b ∈ s.getLast?, Byte.isInk b = true

theorem inked_of_forall {s : Bytes} (h : ∀ b ∈ s, Byte.isInk b = true) : Inked s :=
  ⟨fun b hb => h b (List.mem_of_mem_head? hb), fun b hb => h b (List.mem_of_mem_getLast? hb)⟩

theorem Inked.append {s t : Bytes} (hs : Inked s) (ht : Inked t) (hs' : s ≠ []) (ht' : t ≠ [])
    (middle : Bytes) : Inked (s ++ (middle ++ t)) := by
  refine ⟨?_, ?_⟩
  · rw [List.head?_append_of_ne_nil _ hs']
    exact hs.1
  · rw [List.getLast?_append_of_ne_nil _ (by simp [ht']), List.getLast?_append_of_ne_nil _ ht']
    exact ht.2

/-- No unit of white space starts or ends with a visible character. -/
theorem blanks_not_ink :
    (∀ u ∈ blanks, ∀ b ∈ u.head?, Byte.isInk b = false) ∧
      ∀ u ∈ blanksReversed, ∀ b ∈ u.head?, Byte.isInk b = false := by
  decide +kernel

/-- Nothing is taken off a text with a visible character in front. -/
theorem dropUnits_of_ink {units : List Bytes} {s : Bytes}
    (hunits : ∀ u ∈ units, ∀ b ∈ u.head?, Byte.isInk b = false)
    (hs : ∀ b ∈ s.head?, Byte.isInk b = true) : dropUnits units s = s := by
  have hnone : unitAtFront? units s = none := by
    rw [unitAtFront?, List.find?_eq_none]
    intro u hu hfront
    simp only [Bool.and_eq_true, Bool.not_eq_true', List.isPrefixOf_iff_prefix] at hfront
    obtain ⟨hne, hpre⟩ := hfront
    rcases u with - | ⟨c, u⟩
    · cases hne
    · obtain ⟨t, rfl⟩ := hpre
      have hink := hs c rfl
      rw [hunits (c :: u) hu c rfl] at hink
      cases hink
  rw [dropUnits]
  split
  · rfl
  · next u hu =>
    rw [hnone] at hu
    cases hu

theorem trimStart_space (s : Bytes) : trimStart (0x20 :: s) = trimStart s := by
  have hunit : unitAtFront? blanks (0x20 :: s) = some [0x20] := by
    simp [unitAtFront?, blanks]
  rw [trimStart, dropUnits]
  split
  · next hnone =>
    rw [hunit] at hnone
    cases hnone
  · next u hu =>
    rw [hunit] at hu
    cases hu
    rfl

theorem trimStart_indented (indent : Nat) (s : Bytes) :
    trimStart (List.replicate indent 0x20 ++ s) = trimStart s := by
  induction indent with
  | zero => rfl
  | succ indent ih =>
    rw [List.replicate_succ, List.cons_append, trimStart_space, ih]

/-- **Trimming takes an indentation off and leaves the rest.** -/
theorem trim_indented {s : Bytes} (hs : Inked s) (indent : Nat) :
    trim (List.replicate indent 0x20 ++ s) = s := by
  have hstart : trimStart s = s := dropUnits_of_ink blanks_not_ink.1 hs.1
  have hend : trimEnd s = s := by
    rw [trimEnd, dropUnits_of_ink blanks_not_ink.2, List.reverse_reverse]
    rw [List.head?_reverse]
    exact hs.2
  rw [trim, trimStart_indented, hstart, hend]

theorem trim_of_inked {s : Bytes} (hs : Inked s) : trim s = s :=
  trim_indented hs 0

end Text

/-! ### Lines -/

section Spans

variable {p : UInt8 → Bool} {s t : Bytes}

/-- A run of bytes of one class ends where the class does. -/
theorem takeWhile_append_of_head (hs : ∀ c ∈ s, p c = true) (ht : ∀ c ∈ t.head?, p c = false) :
    (s ++ t).takeWhile p = s := by
  rw [List.takeWhile_append_of_pos hs]
  rcases t with - | ⟨b, t⟩
  · exact List.append_nil s
  · rw [List.takeWhile_cons_of_neg (by simp [ht b rfl]), List.append_nil]

theorem dropWhile_append_of_head (hs : ∀ c ∈ s, p c = true) (ht : ∀ c ∈ t.head?, p c = false) :
    (s ++ t).dropWhile p = t := by
  rw [List.dropWhile_append_of_pos hs]
  rcases t with - | ⟨b, t⟩
  · rfl
  · rw [List.dropWhile_cons_of_neg (by simp [ht b rfl])]

theorem takeWhile_of_forall (hs : ∀ c ∈ s, p c = true) : s.takeWhile p = s := by
  have h := takeWhile_append_of_head (t := []) hs (by simp)
  rwa [List.append_nil] at h

theorem dropWhile_of_forall (hs : ∀ c ∈ s, p c = true) : s.dropWhile p = [] := by
  have h := dropWhile_append_of_head (t := []) hs (by simp)
  rwa [List.append_nil] at h

end Spans

/-- A name ends where blanks begin, or a byte that is no part of a name. -/
theorem isNamePart_head {blanks after : Bytes} {c : UInt8}
    (hblanks : ∀ b ∈ blanks, Byte.isBlank b = true) (hc : Byte.isNamePart c = false) :
    ∀ d ∈ (blanks ++ c :: after).head?, Byte.isNamePart d = false := by
  intro d hd
  cases blanks with
  | nil =>
    cases hd
    exact hc
  | cons b rest =>
    cases hd
    exact Byte.isNamePart_of_isBlank (hblanks _ List.mem_cons_self)

theorem takeLabels_of_none {s : Bytes} (h : takeLabel? s = none) : takeLabels s = ([], s) := by
  rw [takeLabels]
  split
  · rfl
  · next hsome =>
    rw [h] at hsome
    cases hsome

/-- A line without a comment is trimmed. -/
theorem lineText_indented {s : Bytes} (hs : Text.Inked s) (hcomment : 0x3B ∉ s) (indent : Nat) :
    lineText (List.replicate indent 0x20 ++ s) = s := by
  have hall : ∀ b ∈ List.replicate indent 0x20 ++ s, (b != 0x3B) = true := by
    intro b hb
    rcases List.mem_append.mp hb with hb | hb
    · rw [List.eq_of_mem_replicate hb]
      decide
    · rw [bne_iff_ne]
      rintro rfl
      exact hcomment hb
  rw [lineText, takeWhile_of_forall hall, Text.trim_indented hs]

section Instruction

variable {mnemonic operand : Bytes}

theorem takeLabel?_mnemonic (hmn : isIdentifier mnemonic = true) : takeLabel? mnemonic = none := by
  obtain ⟨b, rest, rfl, hb, hrest⟩ := isIdentifier_iff.mp hmn
  rw [takeLabel?, if_pos hb, dropWhile_of_forall hrest]
  rfl

/-- A mnemonic with an operand is no label: the operand starts with no
colon. -/
theorem takeLabel?_instruction (hmn : isIdentifier mnemonic = true)
    (hop : ∀ b ∈ operand, Byte.isPlain b = true) :
    takeLabel? (mnemonic ++ 0x20 :: operand) = none := by
  obtain ⟨b, rest, rfl, hb, hrest⟩ := isIdentifier_iff.mp hmn
  rw [List.cons_append, takeLabel?, if_pos hb, dropWhile_append_of_head hrest (by simp; rfl), skipBlanks,
    List.dropWhile_cons_of_pos rfl]
  rcases operand with - | ⟨c, more⟩
  · rfl
  · have hc : Byte.isPlain c = true := hop c List.mem_cons_self
    have hblank := Byte.isBlank_of_isInk (Byte.isInk_of_isPlain hc)
    rw [List.dropWhile_cons_of_neg (by simp [hblank])]
    split
    · next heq =>
      cases heq
      cases hc
    · rfl

/-- Plain bytes do not separate a mnemonic from its operand. -/
theorem not_gap_of_isPlain {b : UInt8} (h : Byte.isPlain b = true) :
    (!(b == 0x20 || b == 0x09)) = true := by
  have h20 := ne_of_isPlain (c := 0x20) h rfl
  have h09 := ne_of_isPlain (c := 0x09) h rfl
  simp [h20, h09]

theorem splitInstruction_mnemonic (hmn : ∀ b ∈ mnemonic, Byte.isPlain b = true) :
    splitInstruction mnemonic = (mnemonic, []) := by
  have hgap := fun b hb => not_gap_of_isPlain (hmn b hb)
  rw [splitInstruction, takeWhile_of_forall hgap, dropWhile_of_forall hgap,
    Text.trim_of_inked (Text.inked_of_forall (by simp))]

theorem splitInstruction_operand (hmn : ∀ b ∈ mnemonic, Byte.isPlain b = true)
    (hop : ∀ b ∈ operand, Byte.isPlain b = true) :
    splitInstruction (mnemonic ++ 0x20 :: operand) = (mnemonic, operand) := by
  have hgap := fun b hb => not_gap_of_isPlain (hmn b hb)
  have hinked : Text.Inked operand :=
    Text.inked_of_forall fun b hb => Byte.isInk_of_isPlain (hop b hb)
  have htrim : Text.trim (0x20 :: operand) = operand := Text.trim_indented hinked 1
  rw [splitInstruction, takeWhile_append_of_head hgap (by simp),
    dropWhile_append_of_head hgap (by simp), htrim]

/-- Two plain words hold no other bytes than plain ones and a space. -/
theorem not_mem_words (hmn : ∀ b ∈ mnemonic, Byte.isPlain b = true)
    (hop : ∀ b ∈ operand, Byte.isPlain b = true) {c : UInt8} (hc : Byte.isPlain c = false)
    (hspace : c ≠ 0x20) : c ∉ mnemonic ++ 0x20 :: operand := by
  intro hmem
  rcases List.mem_append.mp hmem with h | h
  · exact ne_of_isPlain (hmn c h) hc rfl
  · rcases List.mem_cons.mp h with h | h
    · exact hspace h
    · exact ne_of_isPlain (hop c h) hc rfl

theorem inked_words (hmn : ∀ b ∈ mnemonic, Byte.isPlain b = true) (hmn' : mnemonic ≠ [])
    (hop : ∀ b ∈ operand, Byte.isPlain b = true) (hne : operand ≠ []) :
    Text.Inked (mnemonic ++ 0x20 :: operand) := by
  refine Text.Inked.append ?_ ?_ hmn' hne [0x20]
  · exact Text.inked_of_forall fun b hb => Byte.isInk_of_isPlain (hmn b hb)
  · exact Text.inked_of_forall fun b hb => Byte.isInk_of_isPlain (hop b hb)

theorem inked_instruction (hmn : isIdentifier mnemonic = true)
    (hop : ∀ b ∈ operand, Byte.isPlain b = true) (hne : operand ≠ []) :
    Text.Inked (mnemonic ++ 0x20 :: operand) := by
  refine inked_words (fun b hb => isPlain_of_mem_identifier hmn hb) ?_ hop hne
  rintro rfl
  cases hmn

/-- A line with a mnemonic and an operand. -/
theorem parseLine_instruction (hmn : isIdentifier mnemonic = true)
    (hop : ∀ b ∈ operand, Byte.isPlain b = true) (hne : operand ≠ []) {o : Operand}
    (ho : Operand.parse? operand = some o) (number indent : Nat) :
    parseLine number (List.replicate indent 0x20 ++ (mnemonic ++ 0x20 :: operand)) =
      .ok (some (.instruction number [] mnemonic (some o))) := by
  have hplain : ∀ b ∈ mnemonic, Byte.isPlain b = true := fun b hb =>
    isPlain_of_mem_identifier hmn hb
  have hinked := inked_instruction hmn hop hne
  have hcolon : (mnemonic ++ 0x20 :: operand).contains 0x3A = false := by
    simpa using not_mem_words (c := 0x3A) hplain hop rfl (by decide)
  have hne' : operand.isEmpty = false := by simpa using hne
  rw [parseLine, lineText_indented hinked (not_mem_words hplain hop rfl (by decide))]
  simp only [takeLabels_of_none (takeLabel?_instruction hmn hop), hcolon,
    splitInstruction_operand hplain hop, hmn, ho, hne']
  simp

/-- A line with a mnemonic alone. -/
theorem parseLine_mnemonic (hmn : isIdentifier mnemonic = true) (number indent : Nat) :
    parseLine number (List.replicate indent 0x20 ++ mnemonic) =
      .ok (some (.instruction number [] mnemonic none)) := by
  have hplain : ∀ b ∈ mnemonic, Byte.isPlain b = true := fun b hb =>
    isPlain_of_mem_identifier hmn hb
  have hmem : ∀ c : UInt8, Byte.isPlain c = false → c ∉ mnemonic := fun c hc h =>
    ne_of_isPlain (hplain c h) hc rfl
  have hinked : Text.Inked mnemonic :=
    Text.inked_of_forall fun b hb => Byte.isInk_of_isPlain (hplain b hb)
  have hcolon : mnemonic.contains 0x3A = false := by simpa using hmem 0x3A rfl
  have hmn' : mnemonic.isEmpty = false := by
    rcases mnemonic with - | ⟨b, rest⟩
    · cases hmn
    · rfl
  rw [parseLine, lineText_indented hinked (hmem 0x3B rfl)]
  simp only [takeLabels_of_none (takeLabel?_mnemonic hmn), hcolon,
    splitInstruction_mnemonic hplain, hmn, hmn']
  simp

end Instruction

/-- A line that declares a label. -/
theorem parseLine_label {name : Bytes} (hname : isIdentifier name = true) (number : Nat) :
    parseLine number (name ++ [0x3A]) = .ok (some (.label number [name])) := by
  have hplain : ∀ b ∈ name, Byte.isPlain b = true := fun b hb => isPlain_of_mem_identifier hname hb
  have hmem : 0x3B ∉ name ++ [0x3A] := by
    intro h
    rcases List.mem_append.mp h with h | h
    · exact ne_of_isPlain (c := 0x3B) (hplain 0x3B h) rfl rfl
    · cases List.mem_singleton.mp h
  have hinked : Text.Inked (name ++ [0x3A]) := by
    apply Text.inked_of_forall
    intro b hb
    rcases List.mem_append.mp hb with hb | hb
    · exact Byte.isInk_of_isPlain (hplain b hb)
    · rw [List.mem_singleton.mp hb]
      decide
  have htake : takeLabel? (name ++ [0x3A]) = some (name, []) := by
    obtain ⟨b, rest, rfl, hb, hrest⟩ := isIdentifier_iff.mp hname
    rw [List.cons_append, takeLabel?, if_pos hb, dropWhile_append_of_head hrest (by simp; rfl),
      takeWhile_append_of_head hrest (by simp; rfl)]
    rfl
  have hlabels : takeLabels (name ++ [0x3A]) = ([name], []) := by
    rw [takeLabels]
    split
    · next hnone =>
      rw [htake] at hnone
      cases hnone
    · next name' after hsome =>
      rw [htake] at hsome
      cases hsome
      rw [Text.trim_of_inked (Text.inked_of_forall (by simp)), takeLabels_of_none rfl]
  have hline : lineText (name ++ [0x3A]) = name ++ [0x3A] := lineText_indented hinked hmem 0
  rw [parseLine, hline]
  simp only [hlabels]
  simp

theorem parseLine_empty (number : Nat) : parseLine number [] = .ok none := by
  have hline : lineText [] = [] := Text.trim_of_inked (Text.inked_of_forall (by simp))
  rw [parseLine, hline]
  rfl

/-! ### Texts -/

theorem beq_feed_of_not_mem {s : Bytes} (h : 0x0A ∉ s) : ∀ b ∈ s, (b == 0x0A) = false := by
  intro b hb
  rw [beq_eq_false_iff_ne]
  rintro rfl
  exact h hb

/-- A text without a line feed is read as one line. -/
theorem parse_line {s : Bytes} (hs : 0x0A ∉ s) {node : Node}
    (h : parseLine 1 s = .ok (some node)) : parse s = .ok [node, .finish 1] := by
  have hlines : lines s = [s] := List.splitOnP_eq_singleton (beq_feed_of_not_mem hs)
  simp only [parse, hlines, List.zipIdx_singleton, List.mapM_cons, h]
  rfl

/-- The lines of a text are what was written, and an empty one at the end. -/
theorem lines_joined {α : Type} {render : α → Bytes} {l : List α}
    (h : ∀ a ∈ l, 0x0A ∉ render a) :
    lines (l.flatMap fun a => render a ++ [0x0A]) = l.map render ++ [[]] := by
  unfold lines
  induction l with
  | nil => rfl
  | cons a rest ih =>
    have ha := beq_feed_of_not_mem (h a List.mem_cons_self)
    rw [List.flatMap_cons, List.append_assoc, List.singleton_append,
      List.splitOnP_append_cons_of_forall_mem ha 0x0A rfl,
      ih fun a' ha' => h a' (List.mem_cons_of_mem _ ha')]
    rfl

/-- **A text whose lines can all be read gives their nodes in order.** -/
theorem parse_joined {α : Type} {render : α → Bytes} {R : α → Node → Prop} {l : List α}
    (hfeed : ∀ a ∈ l, 0x0A ∉ render a)
    (hread : ∀ a ∈ l, ∀ number, ∃ node, parseLine number (render a) = .ok (some node) ∧ R a node) :
    ∃ nodes last, parse (l.flatMap fun a => render a ++ [0x0A]) = .ok (nodes ++ [.finish last]) ∧
      List.Forall₂ R l nodes := by
  -- the numbering of the lines is generalised for the induction
  have hmap : ∀ start, ∃ nodes : List Node, (((l.map render ++ [[]]).zipIdx start).mapM
      fun (line, number) => parseLine number line) = .ok (nodes.map some ++ [none]) ∧
      List.Forall₂ R l nodes := by
    clear hfeed
    induction l with
    | nil =>
      intro start
      refine ⟨[], ?_, .nil⟩
      rw [List.map_nil, List.nil_append, List.zipIdx_singleton, List.mapM_cons]
      dsimp only
      rw [parseLine_empty]
      rfl
    | cons a rest ih =>
      intro start
      obtain ⟨node, hnode, hR⟩ := hread a List.mem_cons_self start
      obtain ⟨nodes, hnodes, hrest⟩ :=
        ih (fun a' ha' => hread a' (List.mem_cons_of_mem _ ha')) (start + 1)
      refine ⟨node :: nodes, ?_, .cons hR hrest⟩
      rw [List.map_cons, List.cons_append, List.zipIdx_cons, List.mapM_cons]
      dsimp only
      rw [hnode, hnodes]
      rfl
  obtain ⟨nodes, hnodes, hR⟩ := hmap 1
  refine ⟨nodes, (l.map render ++ [[]]).length, ?_, hR⟩
  rw [parse, lines_joined hfeed, hnodes]
  show Except.ok _ = Except.ok _
  simp

end Mos6502
