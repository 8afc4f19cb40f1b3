/-
Mos6502/Proofs/Declarations.lean

Labels declared in a plain disassembly.  A branch, `JMP` or `JSR` to a place
inside the image is written with the label of that place, and a label is
declared in front of the line that starts at its address.  The two meet unless
no line starts there, and there is exactly one way for that: the place lies
inside an instruction that is shown as a whole (`Instruction.Hides`).

Names are declared once each as long as different addresses have different
labels.  A given name that has the form of a made-up label can break this, if
it is the made-up label of another address (`Analysis.Unambiguous`).

* `Analysis.Readable.declaredLabels_printed`: a text declares the names on its
  lines, for data lines are no source;
* `Analysis.exists_starts`: these are the labels of the offsets where lines
  start, so there are no two of one offset;
* `disassemble_declares_targets`: what follows for the destinations of branches
  and jumps.
-/
import Mos6502.Proofs.Listing
import Mos6502.Proofs.RoundTrip

namespace Mos6502

/-! ### Data lines are no source -/

/-- A line whose first word starts no name cannot be read. -/
theorem parseLine_not_name {b : UInt8} {word operand : Bytes} (hb : Byte.isNameStart b = false)
    (hword : ∀ c ∈ b :: word, Byte.isPlain c = true)
    (hop : ∀ c ∈ operand, Byte.isPlain c = true) (hne : operand ≠ []) (number indent : Nat) :
    parseLine number (List.replicate indent 0x20 ++ (b :: word ++ 0x20 :: operand)) =
      .error ⟨number, .mnemonic, b :: word⟩ := by
  have hinked := inked_words hword (List.cons_ne_nil b word) hop hne
  have hlabel : takeLabel? (b :: word ++ 0x20 :: operand) = none := by
    simp [takeLabel?, hb]
  have hcolon : (b :: word ++ 0x20 :: operand).contains 0x3A = false := by
    simpa using not_mem_words (c := 0x3A) hword hop rfl (by decide)
  have hname : isIdentifier (b :: word) = false := by
    simp [isIdentifier, hb]
  rw [parseLine, lineText_indented hinked (not_mem_words hword hop rfl (by decide))]
  simp only [takeLabels_of_none hlabel, hcolon, splitInstruction_operand hword hop, hname]
  simp

theorem parseLine_data {bytes : Bytes} (hne : bytes ≠ []) (labelAt? : UInt16 → Option Bytes)
    (x : UInt16) (number : Nat) :
    ∃ e, parseLine number ((Line.data x bytes).plainText labelAt?) = .error e := by
  have htext : (Line.data x bytes).plainText labelAt? = List.replicate 4 0x20 ++
      (0x2E :: ascii "byte" ++ 0x20 ::
        Text.joinWith [0x2C] (bytes.map fun b => 0x24 :: Numeral.byte b)) := by
    have hdirective : ascii "    .byte " =
        List.replicate 4 0x20 ++ (0x2E :: ascii "byte" ++ [0x20]) := by
      decide +kernel
    show ascii "    .byte " ++ _ = _
    rw [hdirective]
    simp only [List.append_assoc, List.singleton_append]
  have hword : ∀ c ∈ 0x2E :: ascii "byte", Byte.isPlain c = true := by decide +kernel
  rw [htext]
  refine ⟨_, parseLine_not_name rfl hword (fun c hc => isPlain_of_mem_literals hc) ?_ number 4⟩
  rcases bytes with - | ⟨b, rest⟩
  · exact absurd rfl hne
  · simp [Text.joinWith]

/-! ### Declared names -/

namespace Analysis

variable {a : Analysis} {code : Bytes} {line : Line} {name : Bytes} {o : Nat} {rest : Bytes}
  {lines : List Line}

theorem Readable.lines_printed (hid : a.Readable) (hdec : a.Decodes code) :
    Mos6502.lines ((a.printed code).flatMap (Line.text false a.labelAt?)) =
      (a.printed code).map (Line.plainText a.labelAt?) ++ [[]] :=
  lines_joined fun _ hline => hid.lineFeed_not_mem_plainText hdec (mem_printed_iff.mp hline).2

/-- A line that is read again declares the name that it shows. -/
theorem Readable.labels_plainText (hid : a.Readable) (hdec : a.Decodes code)
    (hline : line ∈ a.lines code) :
    (parseLine 0 (line.plainText a.labelAt?)).toOption.join.toList.flatMap Node.labels =
      line.name?.toList := by
  by_cases hdata : ∃ x bytes, line = .data x bytes
  · obtain ⟨x, bytes, rfl⟩ := hdata
    have hne : bytes ≠ [] := List.length_pos_iff.mp (length_data hline).1
    obtain ⟨e, he⟩ := parseLine_data hne a.labelAt? x 0
    rw [he]
    rfl
  · simp only [not_exists] at hdata
    obtain ⟨node, hparse, hreads⟩ := hid.exists_reads hdec hline hdata 0
    rw [hparse]
    cases hreads with
    | label => rfl
    | code => rfl

/-- **A plain text declares the names of its lines, in their order.** -/
theorem Readable.declaredLabels_printed (hid : a.Readable) (hdec : a.Decodes code) :
    declaredLabels ((a.printed code).flatMap (Line.text false a.labelAt?)) =
      (a.printed code).filterMap Line.name? := by
  -- line by line: each gives the labels of its own node, and the empty line at the end none
  rw [declaredLabels, readableNodes, hid.lines_printed hdec, List.filterMap_eq_flatMap_toList,
    List.flatMap_assoc, List.flatMap_append, List.flatMap_map, List.flatMap_singleton,
    parseLine_empty, List.filterMap_eq_flatMap_toList]
  rw [List.flatMap_congr fun line hline =>
    hid.labels_plainText hdec (mem_printed_iff.mp hline).2]
  simp [Except.toOption]

/-- Offsets in order whose labels are the names on some lines. -/
structure Starts (a : Analysis) (low high : Nat) (lines : List Line) (starts : List Nat) :
    Prop where
  sorted : starts.Pairwise (· < ·)
  bounds : ∀ s ∈ starts, low ≤ s ∧ s < high
  names : lines.filterMap Line.name? = starts.filterMap fun s => a.labelAt? (a.addressOf s)

/-- One more line in front, with the label of its offset declared. -/
theorem Starts.block {next stop high : Nat} {starts : List Nat}
    (h : a.Starts next stop lines starts) (hline : line.name? = none) (hnext : o < next)
    (hhigh : o < high) (hstop : ∀ s, next ≤ s → s < stop → s < high) :
    a.Starts o high ((a.declaration o).toList ++ line :: lines) (o :: starts) := by
  refine ⟨List.pairwise_cons.mpr ⟨?_, h.sorted⟩, ?_, ?_⟩
  · intro s hs
    exact Nat.lt_of_lt_of_le hnext (h.bounds s hs).1
  · intro s hs
    rcases List.mem_cons.mp hs with rfl | hs
    · exact ⟨Nat.le_refl s, hhigh⟩
    · obtain ⟨hlow, hlt⟩ := h.bounds s hs
      exact ⟨by omega, hstop s hlow hlt⟩
  · rw [toList_declaration, List.filterMap_append, List.filterMap_cons_none hline, h.names]
    rcases hlabel : a.labelAt? (a.addressOf o) with - | name <;> simp [hlabel, Line.name?]

/-- The names on the lines are the labels of the offsets where they start. -/
theorem Tiles.exists_starts (h : a.Tiles o rest lines) :
    ∃ starts, a.Starts o (o + rest.length) lines starts := by
  induction h with
  | done o => exact ⟨[], by simp, by simp, rfl⟩
  | @code o rest i lines hne _ _ ih =>
    obtain ⟨starts, hstarts⟩ := ih
    have hpos : 0 < rest.length := List.length_pos_iff.mpr hne
    have hsize : 0 < i.mode.size := Nat.succ_pos _
    rw [List.length_drop] at hstarts
    exact ⟨o :: starts, hstarts.block rfl (by omega) (by omega) (by omega)⟩
  | @data o run b tail lines _ _ _ ih =>
    obtain ⟨starts, hstarts⟩ := ih
    rw [List.length_drop] at hstarts
    rw [List.length_cons]
    exact ⟨o :: starts, hstarts.block rfl (by omega) (by omega) (by omega)⟩

theorem exists_starts (hfit : a.origin.toNat + code.length ≤ addressSpace) :
    ∃ starts, a.Starts 0 (addressSpace - a.origin.toNat) (a.lines code) starts := by
  obtain ⟨body, hlines, htiles⟩ := a.lines_tiles code
  obtain ⟨starts, hstarts⟩ := htiles.exists_starts
  rw [hlines]
  have hbounds : ∀ s ∈ starts, s < code.length := fun s hs => by
    have hs := (hstarts.bounds s hs).2
    omega
  by_cases hend : a.endLabel code.length = []
  · rw [hend, List.append_nil]
    refine ⟨starts, hstarts.sorted, fun s hs => ⟨Nat.zero_le s, ?_⟩, hstarts.names⟩
    have hs := hbounds s hs
    omega
  · -- a symbol at the end is the last name, and the label of its address
    obtain ⟨line, hline⟩ := List.exists_mem_of_ne_nil _ hend
    obtain ⟨hlt, name, hname, -⟩ := mem_endLabel_iff.mp hline
    refine ⟨starts ++ [code.length], ?_, ?_, ?_⟩
    · rw [List.pairwise_append]
      refine ⟨hstarts.sorted, List.pairwise_singleton _ _, ?_⟩
      intro s hs t ht
      rw [List.mem_singleton.mp ht]
      exact hbounds s hs
    · intro s hs
      rcases List.mem_append.mp hs with hs | hs
      · have hs := hbounds s hs
        omega
      · rw [List.mem_singleton.mp hs]
        omega
    · rw [List.filterMap_append, List.filterMap_append, hstarts.names]
      simp [endLabel, hlt, hname, labelAt?_of_nameAt? hname, Line.name?]

/-- **No name is declared twice** if different addresses have different
labels. -/
theorem Unambiguous.nodup_names (hown : a.Unambiguous)
    (hfit : a.origin.toNat + code.length ≤ addressSpace) :
    ((a.lines code).filterMap Line.name?).Nodup := by
  obtain ⟨starts, hstarts⟩ := exists_starts hfit
  rw [hstarts.names, List.Nodup, List.pairwise_filterMap]
  refine hstarts.sorted.imp_of_mem ?_
  rintro s t hs ht hlt name hname _ hother rfl
  have heq := congrArg UInt16.toNat (labelAt?_injective hown hname hother)
  have hs := (hstarts.bounds s hs).2
  have ht := (hstarts.bounds t ht).2
  rw [toNat_addressOf (by omega), toNat_addressOf (by omega)] at heq
  omega

end Analysis

/-! ### Hidden places -/

/-- An address inside an instruction, behind its first byte. -/
def Instruction.Hides (j : Instruction) (t : UInt16) : Prop :=
  j.address.toNat < t.toNat ∧ t.toNat < j.address.toNat + j.bytes.length

instance (j : Instruction) (t : UInt16) : Decidable (j.Hides t) :=
  inferInstanceAs (Decidable (_ ∧ _))

namespace Analysis

variable {a : Analysis} {code : Bytes} {name : Bytes} {t : UInt16}

theorem addressOf_of_toNat {o : Nat} (ht : t.toNat = a.origin.toNat + o) : a.addressOf o = t := by
  have hlt : a.origin.toNat + o < addressSpace := by
    rw [← ht]
    exact t.toNat_lt
  apply UInt16.toNat_inj.mp
  rw [toNat_addressOf hlt, ht]

/-- A place with a label has a line of its own unless an instruction hides
it. -/
theorem exists_opens_of_not_hidden (hdec : a.Decodes code)
    (hfit : a.origin.toNat + code.length ≤ addressSpace) (hlabel : a.labelAt? t = some name)
    (hlow : a.origin.toNat ≤ t.toNat) (hhigh : t.toNat < a.origin.toNat + code.length)
    (hshown : ∀ j, Line.code j ∈ a.lines code → ¬ j.Hides t) :
    ∃ line, a.Opens (a.lines code) (t.toNat - a.origin.toNat) line ∧
      line.shown.address? = some t := by
  have haddr : a.addressOf (t.toNat - a.origin.toNat) = t := addressOf_of_toNat (by omega)
  rcases a.onLine code (x := t.toNat - a.origin.toNat) (by omega) with
    ⟨hcode, hopens, hle, hlt⟩ | ⟨hopens, -, -, -, -, hinside⟩
  · rename_i s j
    have haddress := address_of_codeAt? hdec hcode
    by_cases hstart : s = t.toNat - a.origin.toNat
    · subst hstart
      refine ⟨_, hopens, ?_⟩
      show some j.address = some t
      rw [haddress, haddr]
    · -- the instruction starts before the place
      refine absurd ?_ (hshown j hopens.mem)
      rw [Instruction.Hides, length_bytes_of_codeAt? hdec hcode, haddress,
        toNat_addressOf (by omega)]
      omega
  · rename_i s bytes
    by_cases hstart : s = t.toNat - a.origin.toNat
    · subst hstart
      exact ⟨_, hopens, congrArg some haddr⟩
    · -- there are no labels inside a data line
      rw [haddr, hlabel] at hinside
      cases hinside hstart

/-- The label of a place is declared unless an instruction hides it. -/
theorem mem_names_of_not_hidden (hdec : a.Decodes code)
    (hfit : a.origin.toNat + code.length ≤ addressSpace) (hlabel : a.labelAt? t = some name)
    (hlow : a.origin.toNat ≤ t.toNat) (hhigh : t.toNat < a.origin.toNat + code.length)
    (hshown : ∀ j, Line.code j ∈ a.lines code → ¬ j.Hides t) :
    name ∈ (a.lines code).filterMap Line.name? := by
  obtain ⟨line, hopens, -⟩ := exists_opens_of_not_hidden hdec hfit hlabel hlow hhigh hshown
  have haddr : a.addressOf (t.toNat - a.origin.toNat) = t := addressOf_of_toNat (by omega)
  rw [← haddr] at hlabel
  exact List.mem_filterMap.mpr ⟨_, hopens.declared name hlabel, rfl⟩

/-- A declaration never stands inside an instruction. -/
theorem not_hides_of_label (hdec : a.Decodes code)
    (hfit : a.origin.toNat + code.length ≤ addressSpace) {k : Nat}
    (hk : (a.lines code)[k]? = some (.label name)) {j : Instruction}
    (hj : Line.code j ∈ a.lines code) :
    ¬ j.Hides (a.addressOf (Line.offset (a.lines code) k)) := by
  obtain ⟨m, hm⟩ := List.mem_iff_getElem?.mp hj
  obtain ⟨hlt, -⟩ := standsAt_of_getElem? hdec hfit hk
  obtain ⟨hlt', hcode⟩ := standsAt_of_getElem? hdec hfit hm
  rintro ⟨hafter, hbefore⟩
  rw [address_of_codeAt? hdec hcode, toNat_addressOf hlt, toNat_addressOf hlt'] at hafter hbefore
  -- the declaration stands before the instruction or after its end
  rcases Nat.lt_trichotomy k m with hkm | rfl | hmk
  · have hend := Line.offset_add_le_offset hk hkm
    omega
  · rw [hk] at hm
    cases hm
  · have hend := Line.offset_add_le_offset hm hmk
    have hbytes : (Line.code j).bytes.length = j.bytes.length := rfl
    omega

/-- A place that an instruction hides has no line, and its label is not
declared. -/
theorem Unambiguous.not_hidden_of_mem_names (hown : a.Unambiguous) (hdec : a.Decodes code)
    (hfit : a.origin.toNat + code.length ≤ addressSpace) (hlabel : a.labelAt? t = some name)
    (hname : name ∈ (a.lines code).filterMap Line.name?) {j : Instruction}
    (hj : Line.code j ∈ a.lines code) : ¬ j.Hides t := by
  obtain ⟨line, hline, hshows⟩ := List.mem_filterMap.mp hname
  obtain ⟨k, hk⟩ := List.mem_iff_getElem?.mp hline
  cases line with
  | code => cases hshows
  | data => cases hshows
  | label =>
    cases hshows
    have ht := labelAt?_injective hown hlabel (standsAt_of_getElem? hdec hfit hk).2
    rw [ht]
    exact not_hides_of_label hdec hfit hk hj

/-- A branch or jump to a place with a label is written with it. -/
theorem Readable.plainText_target (hid : a.Readable) (hdec : a.Decodes code) {o : Nat}
    {i : Instruction} (hcode : a.codeAt? o = some i) (ht : i.target? = some t)
    (hlabel : a.labelAt? t = some name) :
    (Line.code i).plainText a.labelAt? =
      ascii "    " ++ (ascii i.mnemonic.name ++ 0x20 :: name) := by
  obtain ⟨hsup, hw⟩ := Instruction.sourceValue_written (hdec o i hcode) hid
  have hvalue : i.sourceValue a.labelAt? = .label name := by
    rw [Instruction.sourceValue, ht]
    dsimp only
    rw [hlabel]
  rw [Line.plainText_code hsup hw, hvalue]
  rcases Instruction.target?_cases ht with ⟨hmode, -⟩ | ⟨hmode, -⟩ <;> rw [hmode] <;> rfl

end Analysis

/-- **Labels of a plain disassembly.**  Every image that fits at its origin has
a text.  In it a branch, `JMP` or `JSR` to a place inside the image is written
with a label, and this is declared unless an instruction of the text hides the
place.  As long as no given name is the made-up label of another address, it is
declared only then, and no name is declared twice. -/
theorem disassemble_declares_targets {code : Bytes} {origin : UInt16}
    (hfit : origin.toNat + code.length ≤ addressSpace) {symbols : SymbolMap}
    (hid : ∀ entry ∈ symbols, isIdentifier entry.1 = true) :
    ∃ text, disassemble code ⟨origin, symbols, false⟩ = .ok text ∧
      lines text = ((Analysis.ofImage origin symbols code).printed code).map
        (Line.plainText (Analysis.ofImage origin symbols code).labelAt?) ++ [[]] ∧
      (∀ i t, Line.code i ∈ (Analysis.ofImage origin symbols code).printed code →
        i.target? = some t → origin.toNat ≤ t.toNat → t.toNat < origin.toNat + code.length →
        ∃ name, (Line.code i).plainText (Analysis.ofImage origin symbols code).labelAt? =
            ascii "    " ++ (ascii i.mnemonic.name ++ 0x20 :: name) ∧
          ((∀ j, Line.code j ∈ (Analysis.ofImage origin symbols code).printed code → ¬ j.Hides t) →
            name ∈ declaredLabels text) ∧
          ((Analysis.ofImage origin symbols code).Unambiguous → name ∈ declaredLabels text →
            ∀ j, Line.code j ∈ (Analysis.ofImage origin symbols code).printed code →
              ¬ j.Hides t)) ∧
      ((Analysis.ofImage origin symbols code).Unambiguous → (declaredLabels text).Nodup) := by
  have hdec := Analysis.decodes_ofImage origin symbols code
  have hread : (Analysis.ofImage origin symbols code).Readable :=
    Analysis.readable_of_identifiers hid
  refine ⟨_, disassemble_eq_printed hfit symbols false, hread.lines_printed hdec, ?_, ?_⟩
  · intro i t hline ht hlow hhigh
    have hshown : (Analysis.ofImage origin symbols code).printed code =
        (Analysis.ofImage origin symbols code).lines code :=
      if_neg (Analysis.mem_printed_iff.mp hline).1
    rw [hread.declaredLabels_printed hdec, hshown]
    rw [hshown] at hline
    obtain ⟨o, hcode⟩ := Analysis.exists_codeAt?_of_mem hline
    obtain ⟨name, hlabel⟩ := Analysis.exists_labelAt? hcode ht hlow hhigh
    refine ⟨name, hread.plainText_target hdec hcode ht hlabel, ?_, ?_⟩
    · exact Analysis.mem_names_of_not_hidden hdec hfit hlabel hlow hhigh
    · intro hown hname j hj
      exact hown.not_hidden_of_mem_names hdec hfit hlabel hname hj
  · intro hown
    rw [hread.declaredLabels_printed hdec, Analysis.printed]
    split
    · exact List.nodup_nil
    · exact hown.nodup_names hfit

/-- A branch into the operand of the instruction after it, whose label has no
line, and a branch back to a given name. -/
theorem disassemble_declares_targets_overlap :
    ∃ text, disassemble [0xD0, 0x01, 0x2C, 0xA9, 0x00, 0xF0, 0xF9, 0x60]
        ⟨0x8000, [(ascii "main", 0x8000)], false⟩ = .ok text ∧
      text = ascii "main:\n    BNE L8003\n    BIT $00A9\n    BEQ main\n    RTS\n" ∧
      ascii "main" ∈ declaredLabels text ∧ ascii "L8003" ∉ declaredLabels text ∧
      (declaredLabels text).Nodup := by
  have hfit : (0x8000 : UInt16).toNat +
      List.length ([0xD0, 0x01, 0x2C, 0xA9, 0x00, 0xF0, 0xF9, 0x60] : Bytes) ≤ addressSpace := by
    decide
  have hid : ∀ entry ∈ ([(ascii "main", 0x8000)] : SymbolMap), isIdentifier entry.1 = true := by
    decide +kernel
  have hshown : (Analysis.ofImage 0x8000 [(ascii "main", 0x8000)]
      [0xD0, 0x01, 0x2C, 0xA9, 0x00, 0xF0, 0xF9, 0x60]).printed
      [0xD0, 0x01, 0x2C, 0xA9, 0x00, 0xF0, 0xF9, 0x60] =
      [.label (ascii "main"), .code ⟨0x8000, .bne, .relative, 0x01, [0xD0, 0x01]⟩,
        .code ⟨0x8002, .bit, .absolute, 0x00A9, [0x2C, 0xA9, 0x00]⟩,
        .code ⟨0x8005, .beq, .relative, 0xF9, [0xF0, 0xF9]⟩,
        .code ⟨0x8007, .rts, .implied, 0, [0x60]⟩] := by
    decide +kernel
  have htext : disassemble [0xD0, 0x01, 0x2C, 0xA9, 0x00, 0xF0, 0xF9, 0x60]
      ⟨0x8000, [(ascii "main", 0x8000)], false⟩ =
      .ok (ascii "main:\n    BNE L8003\n    BIT $00A9\n    BEQ main\n    RTS\n") := by
    decide +kernel
  have hown : (Analysis.ofImage 0x8000 [(ascii "main", 0x8000)]
      [0xD0, 0x01, 0x2C, 0xA9, 0x00, 0xF0, 0xF9, 0x60]).Unambiguous := by
    apply SymbolMap.Legible.unambiguous
    refine ⟨by decide, hid, ?_⟩
    intro entry hentry address kind h
    cases List.mem_singleton.mp hentry
    cases kind <;> cases (List.cons.inj h).1
  obtain ⟨text, htext', -, htargets, hnodup⟩ := disassemble_declares_targets hfit hid
  rw [htext] at htext'
  cases htext'
  rw [hshown] at htargets
  refine ⟨_, htext, rfl, ?_, ?_, hnodup hown⟩
  · obtain ⟨name, hplain, hdeclared, -⟩ := htargets ⟨0x8005, .beq, .relative, 0xF9, [0xF0, 0xF9]⟩
      0x8000 (by simp) (by decide +kernel) (by decide) (by decide)
    have hname : ascii "main" = name := by
      have hline : (Line.code ⟨0x8005, .beq, .relative, 0xF9, [0xF0, 0xF9]⟩).plainText
          (Analysis.ofImage 0x8000 [(ascii "main", 0x8000)]
            [0xD0, 0x01, 0x2C, 0xA9, 0x00, 0xF0, 0xF9, 0x60]).labelAt? =
          ascii "    " ++ (ascii "BEQ" ++ 0x20 :: ascii "main") := by
        decide +kernel
      rw [hline] at hplain
      exact (List.cons.inj (List.append_cancel_left (List.append_cancel_left hplain))).2
    rw [hname]
    apply hdeclared
    intro j hj
    simp only [List.mem_cons, List.not_mem_nil, or_false, reduceCtorEq, false_or,
      Line.code.injEq] at hj
    rcases hj with rfl | rfl | rfl | rfl <;> decide
  · obtain ⟨name, hplain, -, hdeclared⟩ := htargets ⟨0x8000, .bne, .relative, 0x01, [0xD0, 0x01]⟩
      0x8003 (by simp) (by decide +kernel) (by decide) (by decide)
    have hname : ascii "L8003" = name := by
      have hline : (Line.code ⟨0x8000, .bne, .relative, 0x01, [0xD0, 0x01]⟩).plainText
          (Analysis.ofImage 0x8000 [(ascii "main", 0x8000)]
            [0xD0, 0x01, 0x2C, 0xA9, 0x00, 0xF0, 0xF9, 0x60]).labelAt? =
          ascii "    " ++ (ascii "BNE" ++ 0x20 :: ascii "L8003") := by
        decide +kernel
      rw [hline] at hplain
      exact (List.cons.inj (List.append_cancel_left (List.append_cancel_left hplain))).2
    rw [hname]
    intro hmem
    refine hdeclared hown hmem ⟨0x8002, .bit, .absolute, 0x00A9, [0x2C, 0xA9, 0x00]⟩ (by simp) ?_
    decide

/-- A branch into itself, whose label is declared nowhere, and a symbol with the
made-up name of another address, declared at both. -/
theorem disassemble_label_undeclared_or_twice :
    (disassemble [0xD0, 0xFF] ⟨0, [], false⟩ = .ok (ascii "    BNE L0001\n") ∧
      declaredLabels (ascii "    BNE L0001\n") = []) ∧
    (disassemble [0xD0, 0x01, 0xEA, 0xEA] ⟨0, [(ascii "L0003", 0)], false⟩ =
        .ok (ascii "L0003:\n    BNE L0003\n    NOP\nL0003:\n    NOP\n") ∧
      declaredLabels (ascii "L0003:\n    BNE L0003\n    NOP\nL0003:\n    NOP\n") =
        [ascii "L0003", ascii "L0003"]) := by
  decide +kernel

end Mos6502
