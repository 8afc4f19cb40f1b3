/-
Mos6502/Proofs/Reassembly.lean

A disassembly laid out and linked again.  The lines of an image tile it, so a
pass over them meets every instruction at the offset it was decoded from and
every label at the offset it names.  `Builder.Follows` is this as an invariant:
whatever has been placed shows the instruction at its address, and whatever
has been declared is the label of its address.  One block of lines, an
instruction with the label in front of it, keeps it (`Builder.run_block`), and
so do all of them (`Builder.run_tiles`).

A program that shows an image (`Program.ShowsImage`) links to it
(`Program.ShowsImage.link_eq`).  The operand of every expression is the one
that was decoded:

* a literal is written as it was read;
* a label is worth the address it was made for, since no two addresses have
  the same label;
* a branch has the displacement it had, since its own address and its label
  have moved by the same amount.  This is where the destination has to lie
  inside the image without wrapping around.
-/
import Mos6502.Proofs.Encoding
import Mos6502.Proofs.Rendering

namespace Mos6502

/-! ### Following an image -/

namespace Analysis

variable {a : Analysis}

theorem addressOf_injective {m n : Nat} (hm : m < addressSpace) (hn : n < addressSpace)
    (h : a.addressOf m = a.addressOf n) : m = n := by
  have hnat := congrArg UInt16.toNat h
  rw [addressOf, addressOf, toNat_origin_add, toNat_origin_add] at hnat
  have horigin := a.origin.toNat_lt
  rw [addressSpace] at hm hn hnat
  omega

theorem toList_declaration (a : Analysis) (o : Nat) :
    (a.declaration o).toList = (a.labelAt? (a.addressOf o)).toList.map Line.label := by
  unfold declaration
  rcases a.labelAt? (a.addressOf o) with - | name <;> rfl

/-- At the end of an image there is at most one label, and it is that of the
address. -/
theorem exists_endLabel_eq (a : Analysis) (length : Nat) :
    ∃ name? : Option Bytes, a.endLabel length = name?.toList.map Line.label ∧
      ∀ name, name? = some name →
        length < addressSpace ∧ a.labelAt? (a.addressOf length) = some name := by
  unfold endLabel
  split
  · next hlt =>
    exact ⟨_, rfl, fun name hname => ⟨by omega, labelAt?_of_nameAt? hname⟩⟩
  · exact ⟨none, rfl, fun name hname => by cases hname⟩

end Analysis

/-- An expression that shows the instruction reached at its address. -/
structure Placed.Shows (a : Analysis) (j : Placed) (i : Instruction) : Prop where
  reached : a.codeAt? j.address = some i
  mnemonic : j.expression.mnemonic = i.mnemonic
  mode : j.expression.mode = i.mode
  operand : j.expression.operand = i.sourceValue a.labelAt?

/-- A pass that has followed an analysis so far: its expressions show lines of
the disassembly, and its labels, all of them before the cursor, are those of
their addresses. -/
structure Builder.Follows (a : Analysis) (lines : List Line) (b : Builder) : Prop where
  valid : b.Valid
  pending : b.pending = #[]
  code : ∀ j ∈ b.code.toList, ∃ i, Line.code i ∈ lines ∧ j.Shows a i
  labels : ∀ s ∈ b.symbols.toList, a.labelAt? (a.addressOf s.address) = some s.name
  before : ∀ s ∈ b.symbols.toList, s.address < b.cursor

/-- The name that a line declares. -/
def Line.name? : Line → Option Bytes
  | .label name => some name
  | .code _ | .data .. => none

theorem forall₂_append_left {α β : Type} {R : α → β → Prop} {l₁ l₂ : List α} {m : List β}
    (h : List.Forall₂ R (l₁ ++ l₂) m) :
    ∃ m₁ m₂, m = m₁ ++ m₂ ∧ List.Forall₂ R l₁ m₁ ∧ List.Forall₂ R l₂ m₂ := by
  induction l₁ generalizing m with
  | nil => exact ⟨[], m, rfl, .nil, h⟩
  | cons a rest ih =>
    obtain ⟨b, more, hb, hmore, rfl⟩ := List.forall₂_cons_left_iff.mp h
    obtain ⟨m₁, m₂, rfl, h₁, h₂⟩ := ih hmore
    exact ⟨b :: m₁, m₂, rfl, .cons hb h₁, h₂⟩

namespace Builder

variable {a : Analysis} {all : List Line} {b : Builder}

/-- The label of the cursor has not been declared before. -/
theorem Follows.fresh (hsym : a.symbols.Legible) (hb : b.Follows a all) {name : Bytes}
    (hcursor : b.cursor < addressSpace) (hname : a.labelAt? (a.addressOf b.cursor) = some name) :
    name ∉ b.symbols.toList.map Symbol.name := by
  intro hmem
  obtain ⟨s, hs, rfl⟩ := List.mem_map.mp hmem
  have haddr := Analysis.labelAt?_injective hsym.unambiguous (hb.labels s hs) hname
  have hlt := hb.before s hs
  have heq := Analysis.addressOf_injective (by omega) hcursor haddr
  omega

/-- The labels declared so far and the one that waits are distinct. -/
theorem Follows.nodup_append (hsym : a.symbols.Legible) (hb : b.Follows a all)
    {name? : Option Bytes} (hend : ∀ name, name? = some name →
      b.cursor < addressSpace ∧ a.labelAt? (a.addressOf b.cursor) = some name) :
    (b.symbols.toList.map Symbol.name ++ name?.toList).Nodup := by
  rcases name? with - | name
  · rw [Option.toList_none, List.append_nil]
    exact hb.valid.nodup
  · obtain ⟨hcursor, hname⟩ := hend name rfl
    rw [Option.toList_some, ← List.concat_eq_append, List.nodup_concat]
    exact ⟨hb.fresh hsym hcursor hname, hb.valid.nodup⟩

/-- Lines of labels only make them wait. -/
theorem run_labels {labelAt? : UInt16 → Option Bytes} {names : List Bytes} {nodes : List Node}
    (h : List.Forall₂ (Line.Reads labelAt?) (names.map Line.label) nodes) (b : Builder) :
    ∃ labels : List PendingLabel, labels.map PendingLabel.name = names ∧
      b.run nodes = .ok { b with pending := b.pending ++ labels.toArray } := by
  induction names generalizing nodes b with
  | nil =>
    cases h
    exact ⟨[], rfl, by simp [run, pure, Except.pure]⟩
  | cons name rest ih =>
    rw [List.map_cons, List.forall₂_cons_left_iff] at h
    obtain ⟨node, more, hnode, hmore, rfl⟩ := h
    cases hnode with
    | @label _ n =>
      obtain ⟨labels, hnames, hrun⟩ :=
        ih hmore { b with pending := b.pending ++ (pendingOf n [name]).toArray }
      refine ⟨⟨name, n⟩ :: labels, by rw [List.map_cons, hnames], ?_⟩
      rw [run, List.foldlM_cons]
      show run _ more = _
      rw [hrun]
      simp [pendingOf]

theorem resolveTarget_of_ne_target {e : Expression} (h : ∀ t, e.operand ≠ .target t)
    (address : Nat) : resolveTarget address e = .ok e := by
  unfold resolveTarget
  split
  · next t ht => exact absurd ht (h t)
  · rfl

/-- An expression whose operand is known is placed if its labels are new and
it ends inside the address space. -/
theorem place_of_ne_target {e : Expression} (htarget : ∀ t, e.operand ≠ .target t) (line : Int)
    (hnodup : (b.symbols.toList.map Symbol.name ++ b.pending.toList.map PendingLabel.name).Nodup)
    (hfit : b.cursor + e.size ≤ addressSpace) :
    b.place line [] e = .ok ⟨b.code.push ⟨b.cursor, e⟩,
      b.symbols ++ (b.pending.toList.map (declared b.cursor (some b.code.size))).toArray, #[],
      b.cursor + e.size⟩ := by
  have hcursor : b.cursor < addressSpace := by
    rw [Expression.size, Mode.size] at hfit
    omega
  refine place_eq_ok_iff.mpr ⟨e, _, resolveTarget_of_ne_target htarget b.cursor, ?_, hfit, rfl⟩
  rw [pendingOf, List.map_nil, List.append_nil]
  exact (defineAll_eq_ok_iff (List.nodup_append.mp hnodup).1).mpr ⟨hnodup, fun _ => hcursor, rfl⟩

/-- An instruction placed at its own offset, with its label waiting. -/
theorem Follows.place (hsym : a.symbols.Legible) (hb : b.Follows a all) {i : Instruction}
    (hcode : a.codeAt? b.cursor = some i) (hline : Line.code i ∈ all)
    (htarget : ∀ t, i.sourceValue a.labelAt? ≠ .target t)
    (hfit : b.cursor + i.mode.size ≤ addressSpace) {labels : List PendingLabel}
    (hlabels : labels.map PendingLabel.name = (a.labelAt? (a.addressOf b.cursor)).toList)
    {n : Int} (hsel : (⟨i.mnemonic, i.mode, i.sourceValue a.labelAt?, n⟩ : Expression).Selected) :
    ∃ b', ({ b with pending := labels.toArray } : Builder).place n []
        ⟨i.mnemonic, i.mode, i.sourceValue a.labelAt?, n⟩ = .ok b' ∧
      b'.Follows a all ∧ b'.cursor = b.cursor + i.mode.size ∧
      b'.symbols.toList.map Symbol.name =
        b.symbols.toList.map Symbol.name ++ (a.labelAt? (a.addressOf b.cursor)).toList := by
  have hcursor : b.cursor < addressSpace := by
    rw [Mode.size] at hfit
    omega
  have hvalid : ({ b with pending := labels.toArray } : Builder).Valid :=
    ⟨hb.valid.laidOut, hb.valid.cursor_le, hb.valid.encodable, hb.valid.nodup,
      hb.valid.symbol_le, hb.valid.symbol_lt⟩
  have hnodup : (b.symbols.toList.map Symbol.name ++ labels.map PendingLabel.name).Nodup := by
    rw [hlabels]
    exact hb.nodup_append hsym fun name hname => ⟨hcursor, hname⟩
  have hplace := place_of_ne_target (b := { b with pending := labels.toArray })
    (e := ⟨i.mnemonic, i.mode, i.sourceValue a.labelAt?, n⟩) htarget n hnodup hfit
  refine ⟨_, hplace, ?_, rfl, ?_⟩
  · -- every symbol is an old one or the label of the cursor
    have hsymbols : ∀ s ∈ (b.symbols ++ (labels.map
        (declared b.cursor (some b.code.size))).toArray).toList,
        s ∈ b.symbols.toList ∨ (s.address = b.cursor ∧
          a.labelAt? (a.addressOf b.cursor) = some s.name) := by
      intro s hs
      rw [Array.toList_append, List.mem_append] at hs
      rcases hs with hs | hs
      · exact .inl hs
      · obtain ⟨label, hlabel, rfl⟩ := List.mem_map.mp hs
        have hmem : label.name ∈ (a.labelAt? (a.addressOf b.cursor)).toList := by
          rw [← hlabels]
          exact List.mem_map_of_mem hlabel
        exact .inr ⟨rfl, Option.mem_toList.mp hmem⟩
    refine ⟨place_valid hvalid hsel hplace, rfl, ?_, ?_, ?_⟩
    · intro j hj
      rw [Array.toList_push, List.mem_append, List.mem_singleton] at hj
      rcases hj with hj | rfl
      · exact hb.code j hj
      · exact ⟨i, hline, hcode, rfl, rfl, rfl⟩
    · intro s hs
      rcases hsymbols s hs with hs | ⟨haddr, hname⟩
      · exact hb.labels s hs
      · rw [haddr]
        exact hname
    · intro s hs
      show s.address < b.cursor + i.mode.size
      rw [Mode.size]
      rcases hsymbols s hs with hs | ⟨haddr, -⟩
      · have := hb.before s hs
        omega
      · omega
  · show ((b.symbols ++ _).toList).map Symbol.name = _
    rw [Array.toList_append, List.map_append, ← hlabels]
    simp [declared]

/-- **One block of lines**: the label of an offset and the instruction
there. -/
theorem run_block (hsym : a.symbols.Legible) (hb : b.Follows a all) {i : Instruction}
    (hcode : a.codeAt? b.cursor = some i) (hline : Line.code i ∈ all)
    (htarget : ∀ t, i.sourceValue a.labelAt? ≠ .target t)
    (hfit : b.cursor + i.mode.size ≤ addressSpace) {nodes : List Node}
    (hnodes : List.Forall₂ (Line.Reads a.labelAt?)
      ((a.declaration b.cursor).toList ++ [.code i]) nodes) :
    ∃ b', b.run nodes = .ok b' ∧ b'.Follows a all ∧ b'.cursor = b.cursor + i.mode.size ∧
      b'.symbols.toList.map Symbol.name =
        b.symbols.toList.map Symbol.name ++ (a.labelAt? (a.addressOf b.cursor)).toList := by
  obtain ⟨first, second, rfl, hfirst, hsecond⟩ := forall₂_append_left hnodes
  rw [a.toList_declaration] at hfirst
  obtain ⟨labels, hlabels, hrun⟩ := run_labels hfirst b
  rw [hb.pending, Array.empty_append] at hrun
  obtain ⟨node, more, hnode, hmore, rfl⟩ := List.forall₂_cons_left_iff.mp hsecond
  cases hmore
  cases hnode with
  | @code _ n name o hofNode =>
    obtain ⟨b', hplace, hfollows⟩ :=
      hb.place hsym hcode hline htarget hfit hlabels (Expression.ofNode_spec hofNode)
    refine ⟨b', ?_, hfollows⟩
    refine foldlM_append_ok.mpr ⟨_, hrun, ?_⟩
    rw [List.foldlM_cons]
    refine bind_eq_ok_iff.mpr ⟨b', ?_, rfl⟩
    simp only [step, hofNode]
    exact hplace

/-- **All blocks of an image**, from any offset on. -/
theorem run_tiles {image : Bytes} (hsym : a.symbols.Legible) (hdec : a.Decodes image)
    {o : Nat} {rest : Bytes} {lines : List Line} (h : a.Tiles o rest lines)
    (hlines : ∀ line ∈ lines, line ∈ all ∧ ∀ x bytes, line ≠ .data x bytes)
    (htarget : ∀ i, Line.code i ∈ all → ∀ t, i.sourceValue a.labelAt? ≠ .target t)
    (hrest : rest = image.drop o) (hfit : o + rest.length ≤ addressSpace) {nodes : List Node}
    (hnodes : List.Forall₂ (Line.Reads a.labelAt?) lines nodes) {b : Builder}
    (hb : b.Follows a all) (hcursor : b.cursor = o) :
    ∃ b', b.run nodes = .ok b' ∧ b'.Follows a all ∧ b'.cursor = o + rest.length ∧
      b'.symbols.toList.map Symbol.name =
        b.symbols.toList.map Symbol.name ++ lines.filterMap Line.name? := by
  induction h generalizing nodes b with
  | done o =>
    cases hnodes
    exact ⟨b, rfl, hb, hcursor, by simp⟩
  | @code o rest i lines hne hcode _ ih =>
    subst hcursor
    rw [List.append_cons] at hnodes hlines ⊢
    obtain ⟨first, second, rfl, hfirst, hsecond⟩ := forall₂_append_left hnodes
    -- the instruction lies inside the image
    have hsize : i.mode.size ≤ rest.length := by
      have hfetch := hdec b.cursor i hcode
      obtain ⟨-, -, _, -, -, hpre⟩ := Instruction.fetch?_eq_some_iff.mp hfetch
      rw [← Instruction.length_bytes_of_fetch? hfetch, hrest]
      exact hpre.length_le
    obtain ⟨b₁, hrun₁, hb₁, hcursor₁, hnames₁⟩ := run_block hsym hb hcode
      (hlines _ (by simp)).1 (htarget i (hlines _ (by simp)).1) (by omega) hfirst
    obtain ⟨b₂, hrun₂, hb₂, hcursor₂, hnames₂⟩ := ih
      (fun line hline => hlines line (List.mem_append_right _ hline))
      (by rw [hrest, List.drop_drop]) (by rw [List.length_drop]; omega) hsecond hb₁ hcursor₁
    refine ⟨b₂, foldlM_append_ok.mpr ⟨b₁, hrun₁, hrun₂⟩, hb₂, ?_, ?_⟩
    · rw [hcursor₂, List.length_drop]
      omega
    · have hdecl : (a.declaration b.cursor).toList.filterMap Line.name? =
          (a.labelAt? (a.addressOf b.cursor)).toList := by
        rw [Analysis.toList_declaration, List.filterMap_map]
        exact List.filterMap_some
      rw [hnames₂, hnames₁, List.filterMap_append, List.filterMap_append, hdecl]
      simp [Line.name?]
  | @data o run c tail lines _ _ _ _ =>
    exact absurd rfl ((hlines (.data _ _) (List.mem_append_right _ List.mem_cons_self)).2 _ _)

end Builder

/-! ### Programs that show an image -/

/-- A program whose expressions show lines of a disassembly and whose labels
are the declared ones, each at its address. -/
structure Program.ShowsImage (a : Analysis) (lines : List Line) (p : Program) : Prop where
  code : ∀ j ∈ p.code.toList, ∃ i, Line.code i ∈ lines ∧ j.Shows a i
  labels : ∀ s ∈ p.symbols.toList, a.labelAt? (a.addressOf s.address) = some s.name
  declares : ∀ name, Line.label name ∈ lines → name ∈ p.labels

/-- The end of a pass that has followed a whole image: the label of its end
waits. -/
theorem Builder.Follows.finish {a : Analysis} {all : List Line} {b : Builder}
    (hsym : a.symbols.Legible) (hb : b.Follows a all) {labels : List PendingLabel}
    {name? : Option Bytes} (hlabels : labels.map PendingLabel.name = name?.toList)
    (hend : ∀ name, name? = some name →
      b.cursor < addressSpace ∧ a.labelAt? (a.addressOf b.cursor) = some name) :
    ∃ p, ({ b with pending := labels.toArray } : Builder).finish = .ok p ∧ p.size = b.cursor ∧
      (∀ j ∈ p.code.toList, ∃ i, Line.code i ∈ all ∧ j.Shows a i) ∧
      (∀ s ∈ p.symbols.toList, a.labelAt? (a.addressOf s.address) = some s.name) ∧
      p.labels = b.symbols.toList.map Symbol.name ++ name?.toList := by
  have hnodup : (b.symbols.toList.map Symbol.name ++ labels.map PendingLabel.name).Nodup := by
    rw [hlabels]
    exact hb.nodup_append hsym hend
  have hmem : ∀ label ∈ labels, name? = some label.name := by
    intro label hlabel
    have hname : label.name ∈ name?.toList := by
      rw [← hlabels]
      exact List.mem_map_of_mem hlabel
    exact Option.mem_toList.mp hname
  have hdefine : Builder.defineAll b.cursor none b.symbols labels =
      .ok (b.symbols ++ (labels.map (Builder.declared b.cursor none)).toArray) := by
    refine (Builder.defineAll_eq_ok_iff hb.valid.nodup).mpr ⟨hnodup, ?_, rfl⟩
    intro hne
    obtain ⟨label, hlabel⟩ := List.exists_mem_of_ne_nil labels hne
    exact (hend _ (hmem label hlabel)).1
  refine ⟨⟨b.code, b.symbols ++ (labels.map (Builder.declared b.cursor none)).toArray, b.cursor⟩,
    ?_, rfl, hb.code, ?_, ?_⟩
  · exact bind_eq_ok_iff.mpr ⟨_, hdefine, rfl⟩
  · intro s hs
    rw [Array.toList_append, List.mem_append] at hs
    rcases hs with hs | hs
    · exact hb.labels s hs
    · obtain ⟨label, hlabel, rfl⟩ := List.mem_map.mp hs
      exact (hend _ (hmem label hlabel)).2
  · rw [← hlabels]
    simp [Program.labels, Builder.declared]

theorem Line.Reads.isFinish_eq_false {labelAt? : UInt16 → Option Bytes} {lines : List Line}
    {nodes : List Node} (h : List.Forall₂ (Line.Reads labelAt?) lines nodes) :
    ∀ node ∈ nodes, (!node.isFinish) = true := by
  induction h with
  | nil => exact fun node hnode => absurd hnode List.not_mem_nil
  | cons hreads _ ih =>
    intro node hnode
    rcases List.mem_cons.mp hnode with rfl | hnode
    · cases hreads <;> rfl
    · exact ih node hnode

/-- **Lines without data are laid out as the image they show.** -/
theorem build_lines {a : Analysis} {image : Bytes} (hsym : a.symbols.Legible)
    (hdec : a.Decodes image) (hfit : image.length ≤ addressSpace)
    (hdata : ∀ line ∈ a.lines image, ∀ x bytes, line ≠ .data x bytes)
    (htarget : ∀ i, Line.code i ∈ a.lines image → ∀ t, i.sourceValue a.labelAt? ≠ .target t)
    {nodes : List Node} (hnodes : List.Forall₂ (Line.Reads a.labelAt?) (a.lines image) nodes)
    (last : Int) :
    ∃ p, build (nodes ++ [.finish last]) = .ok p ∧ p.size = image.length ∧
      p.ShowsImage a (a.lines image) := by
  obtain ⟨body, hlines, htiles⟩ := a.lines_tiles image
  have hbefore : (nodes ++ [Node.finish last]).takeWhile (fun node => !node.isFinish) = nodes := by
    rw [List.takeWhile_append_of_pos (Line.Reads.isFinish_eq_false hnodes)]
    exact List.append_nil nodes
  have hstart : Builder.start.Follows a (a.lines image) :=
    ⟨Builder.start_valid, rfl, by simp [Builder.start], by simp [Builder.start],
      by simp [Builder.start]⟩
  -- the body is followed block by block, then the label of the end waits
  have hsplit := hnodes
  rw [hlines] at hsplit
  obtain ⟨bodyNodes, endNodes, rfl, hbody, hend⟩ := forall₂_append_left hsplit
  obtain ⟨b, hrun, hb, hcursor, hnames⟩ := Builder.run_tiles hsym hdec htiles
    (fun line hline => by
      have hmem : line ∈ a.lines image := hlines ▸ List.mem_append_left _ hline
      exact ⟨hmem, hdata line hmem⟩)
    htarget rfl (by simpa using hfit) hbody hstart rfl
  rw [Nat.zero_add] at hcursor
  obtain ⟨name?, hname?, hlabel⟩ := a.exists_endLabel_eq image.length
  rw [hname?] at hend
  obtain ⟨labels, hlabels, hrunEnd⟩ := Builder.run_labels hend b
  rw [hb.pending, Array.empty_append] at hrunEnd
  obtain ⟨p, hfinish, hsize, hcode, hsymbols, hnames'⟩ :=
    hb.finish hsym hlabels (by rw [hcursor]; exact hlabel)
  refine ⟨p, ?_, hsize.trans hcursor, hcode, hsymbols, ?_⟩
  · rw [build, hbefore]
    exact bind_eq_ok_iff.mpr ⟨_, foldlM_append_ok.mpr ⟨b, hrun, hrunEnd⟩, hfinish⟩
  · intro name hmem
    rw [hlines, hname?] at hmem
    rw [hnames', hnames]
    rcases List.mem_append.mp hmem with hmem | hmem
    · refine List.mem_append_left _ (List.mem_append_right _ ?_)
      exact List.mem_filterMap.mpr ⟨_, hmem, rfl⟩
    · obtain ⟨name', hname', heq⟩ := List.mem_map.mp hmem
      cases heq
      exact List.mem_append_right _ hname'

/-! ### Linking -/

theorem toNat_wordOfInt {n : Int} (hlow : 0 ≤ n) (hhigh : n < 0x10000) :
    ((wordOfInt n).toNat : Int) = n := by
  rw [toNat_wordOfInt_emod, Int.emod_eq_of_lt hlow hhigh]

theorem Program.exists_symbol? {p : Program} {name : Bytes} (h : name ∈ p.labels) :
    ∃ s, p.symbol? name = some s := by
  obtain ⟨s, hs, rfl⟩ := List.mem_map.mp h
  rw [symbol?, ← Option.isSome_iff_exists, Array.find?_isSome]
  exact ⟨s, Array.mem_toList_iff.mp hs, beq_self_eq_true s.name⟩

/-- What the text of a disassembly must satisfy to be linked again: a label
that is used is declared, and a branch stays inside the image without wrapping
around. -/
structure Analysis.Closed (a : Analysis) (image : Bytes) (lines : List Line) : Prop where
  used : ∀ i, Line.code i ∈ lines → ∀ name, i.sourceValue a.labelAt? = .label name →
    Line.label name ∈ lines
  inside : ∀ i, Line.code i ∈ lines → i.mode = .relative →
    (a.origin.toNat : Int) ≤ i.address.toNat + 2 + signedByte (Word.lo i.operand) ∧
      (i.address.toNat : Int) + 2 + signedByte (Word.lo i.operand) <
        a.origin.toNat + image.length

namespace Program.ShowsImage

variable {a : Analysis} {image : Bytes} {lines : List Line} {p : Program} {j : Placed}
  {i : Instruction} {name : Bytes} {s : Symbol}

/-- A label in an operand is declared at the destination. -/
theorem symbol_of_label (hsym : a.symbols.Legible) (hshow : p.ShowsImage a lines)
    (hclosed : a.Closed image lines) (hline : Line.code i ∈ lines)
    (hname : i.sourceValue a.labelAt? = .label name) :
    ∃ s t, p.symbol? name = some s ∧ i.target? = some t ∧ a.addressOf s.address = t := by
  obtain ⟨t, ht, hlabel⟩ := Instruction.sourceValue_eq_label hname
  obtain ⟨s, hs⟩ := exists_symbol? (hshow.declares name (hclosed.used i hline name hname))
  obtain ⟨hmem, rfl⟩ := mem_of_symbol? hs
  refine ⟨s, t, hs, ht, ?_⟩
  exact Analysis.labelAt?_injective hsym.unambiguous (hshow.labels s hmem) hlabel

section Link

variable (hsym : a.symbols.Legible) (hdec : a.Decodes image) (hp : p.WellFormed)
  (hshow : p.ShowsImage a lines) (hsize : p.size = image.length)
  (hfit : a.origin.toNat + image.length ≤ addressSpace) (hclosed : a.Closed image lines)

include hdec hp hsize hfit

/-- An instruction is shown at the address it was decoded from. -/
theorem address_eq (hj : j ∈ p.code.toList) (hji : j.Shows a i) :
    i.address.toNat = a.origin.toNat + j.address := by
  have hfetch := hdec j.address i hji.reached
  have hend := (hp.laidOut.bounds hj).2
  have hpos : 0 < j.expression.size := Nat.succ_pos _
  rw [(Instruction.fetch?_eq_some_iff.mp hfetch).1, Analysis.addressOf, toNat_origin_add]
  exact Nat.mod_eq_of_lt (by omega)

include hsym hshow hclosed

/-- The label of a branch stands as far from the branch as the decoded
displacement says. -/
theorem branch_address (hj : j ∈ p.code.toList) (hline : Line.code i ∈ lines)
    (hji : j.Shows a i) (hmode : i.mode = .relative) (hname : i.sourceValue a.labelAt? = .label name)
    (hs : p.symbol? name = some s) :
    (s.address : Int) = j.address + 2 + signedByte (Word.lo i.operand) := by
  obtain ⟨s', t, hs', ht, haddr⟩ := symbol_of_label hsym hshow hclosed hline hname
  rw [hs] at hs'
  cases hs'
  have hfetch := hdec j.address i hji.reached
  have hlen : i.bytes.length = 2 := by
    rw [Instruction.length_bytes_of_fetch? hfetch, hmode]
    rfl
  -- neither the address of the branch nor that of its label wraps
  have hi := address_eq hdec hp hsize hfit hj hji
  obtain ⟨hlow, hhigh⟩ := hclosed.inside i hline hmode
  have htarget : (t.toNat : Int) = i.address.toNat + 2 + signedByte (Word.lo i.operand) := by
    rw [Instruction.target?_relative hmode, hlen] at ht
    cases ht
    rw [addressSpace] at hfit
    exact toNat_wordOfInt (by omega) (by omega)
  have hlabel := congrArg UInt16.toNat haddr
  rw [Analysis.addressOf, toNat_origin_add] at hlabel
  have hle := hp.symbol_le s (mem_of_symbol? hs).1
  have hlt := hp.symbol_lt s (mem_of_symbol? hs).1
  have hwrap : a.origin.toNat + s.address < addressSpace := by
    rw [addressSpace] at hlabel hlt hfit ⊢
    omega
  rw [Nat.mod_eq_of_lt hwrap] at hlabel
  omega

/-- Every branch reaches its label, so the section is emitted. -/
theorem exists_rawBytes : ∃ raw, p.rawBytes = .ok raw := by
  rcases hraw : p.rawBytes with e | raw
  · obtain ⟨before, j, after, cause, hcode, -, hfault, -⟩ := (rawBytes_eq_error_iff hp).mp hraw
    have hj : j ∈ p.code.toList := by simp [hcode]
    obtain ⟨i, hline, hji⟩ := hshow.code j hj
    cases hfault with
    | @undeclared name _ hname hnone =>
      rw [hji.operand] at hname
      obtain ⟨s, _, hs, -⟩ := symbol_of_label hsym hshow hclosed hline hname
      rw [hnone] at hs
      cases hs
    | @outOfReach name s hmode hname hs hfar =>
      rw [hji.operand] at hname
      rw [hji.mode] at hmode
      have haddr := branch_address hsym hdec hp hshow hsize hfit hclosed hj hline hji hmode hname hs
      have hbounds := signedByte_bounds (Word.lo i.operand)
      omega
  · exact ⟨raw, rfl⟩

/-- Every relocation has a patch, so the section is linked. -/
theorem exists_link : ∃ out, p.link a.origin [] = .ok out := by
  obtain ⟨raw, hraw⟩ := exists_rawBytes hsym hdec hp hshow hsize hfit hclosed
  have hlen := length_rawBytes hp hraw
  have hfit' : a.origin.toNat + p.size ≤ addressSpace := by omega
  have hpatch : ∀ r ∈ p.relocations, ∃ bytes,
      patchOf a.origin p.symbolMap [] raw.toArray.size r = .ok bytes := by
    intro r hr
    rw [List.size_toArray]
    obtain ⟨j, hj, hrj⟩ := exists_records hp hr
    obtain ⟨i, hline, hji⟩ := hshow.code j hj
    have hname : i.sourceValue a.labelAt? = .label r.symbol := by
      rw [← hji.operand]
      exact hrj.symbol
    obtain ⟨s, t, hs, ht, haddr⟩ := symbol_of_label hsym hshow hclosed hline hname
    rcases Instruction.target?_cases ht with ⟨hmode, -⟩ | ⟨hmode, -⟩
    · -- a branch: its label is not past the top, since it lies in the image
      have hkind : r.kind = .relative := by
        rw [hrj.kind, hji.mode, hmode]
        rfl
      have haddr := branch_address hsym hdec hp hshow hsize hfit hclosed hj hline hji hmode hname hs
      have hi := address_eq hdec hp hsize hfit hj hji
      obtain ⟨d, -, hbelow, -⟩ := patchOf_branch hp hraw hfit' [] hr hkind
      refine ⟨[d], hbelow ?_⟩
      rintro ⟨s', hs', htop⟩
      rw [hs] at hs'
      cases hs'
      obtain ⟨-, hhigh⟩ := hclosed.inside i hline hmode
      omega
    · have hkind : r.kind = .long := by
        rw [hrj.kind, hji.mode, hmode]
        rfl
      have hslot : r.offset.toNat + r.kind.width ≤ raw.length := by
        rw [hlen, hrj.slot_end]
        exact (hp.laidOut.bounds hj).2
      have hbytes : patchBytes a.origin r (a.origin + s.address.toUInt16) =
          .ok (Word.toBytes (a.origin + s.address.toUInt16)) := by
        simp only [patchBytes, hkind]
      exact ⟨_, patchOf_eq_ok_iff.mpr ⟨_, resolve?_of_symbol? hs, hslot, hbytes⟩⟩
  rw [link_eq_applyAll hraw (by omega)]
  obtain ⟨out, hout⟩ := applyAll_ok_iff.mpr hpatch
  rw [hout]
  exact ⟨out.toList, rfl⟩

/-- The linked operand is the decoded one. -/
theorem operand_eq (hj : j ∈ p.code.toList) (hline : Line.code i ∈ lines) (hji : j.Shows a i)
    {value : UInt16} (hvalue : LinkedOperand p a.origin [] j value) : value = i.operand := by
  have hfits := (Instruction.fetch?_eq_some_iff.mp (hdec j.address i hji.reached)).2.1
  cases hvalue with
  | none hnone =>
    rw [hji.operand] at hnone
    have hmode : i.mode.operandLength = 0 := by
      rcases Instruction.sourceValue_cases a.labelAt? i with
        ⟨_, _, -, -, hv⟩ | ⟨_, -, -, -, hv⟩ | ⟨hmode, -⟩ | ⟨-, hv⟩
      case inr.inr.inl => exact hmode
      all_goals
        rw [hv] at hnone
        cases hnone
    rw [hmode, Nat.pow_zero, Nat.lt_one_iff] at hfits
    exact (UInt16.toNat_inj.mp hfits).symm
  | number hnumber =>
    rw [hji.operand] at hnumber
    rcases Instruction.sourceValue_cases a.labelAt? i with
      ⟨_, _, -, -, hv⟩ | ⟨_, -, -, -, hv⟩ | ⟨-, hv⟩ | ⟨-, hv⟩ <;> rw [hv] at hnumber <;>
      cases hnumber
    rfl
  | declared hmode hname hs hnat =>
    rw [hji.operand] at hname
    rw [hji.mode] at hmode
    obtain ⟨s', t, hs', ht, haddr⟩ := symbol_of_label hsym hshow hclosed hline hname
    rw [hs] at hs'
    cases hs'
    rcases Instruction.target?_cases ht with ⟨hrel, -⟩ | ⟨-, -, rfl⟩
    · exact absurd hrel hmode
    · apply UInt16.toNat_inj.mp
      rw [hnat, ← haddr, Analysis.addressOf, toNat_origin_add]
      rfl
  | imported _ _ _ hlookup => cases hlookup
  | @branch name s d hmode hname hs hd =>
    rw [hji.operand] at hname
    rw [hji.mode] at hmode
    have haddr := branch_address hsym hdec hp hshow hsize hfit hclosed hj hline hji hmode hname hs
    have hbyte : d = Word.lo i.operand := signedByte_injective (by omega)
    rw [hmode] at hfits
    rw [hbyte]
    exact toUInt16_lo hfits

/-- **A program that shows an image links to it.** -/
theorem link_eq : p.link a.origin [] = .ok image := by
  obtain ⟨raw, hraw⟩ := exists_rawBytes hsym hdec hp hshow hsize hfit hclosed
  obtain ⟨out, hout⟩ := exists_link hsym hdec hp hshow hsize hfit hclosed
  have hrawLen := length_rawBytes hp hraw
  have hlen : out.length = p.size := (length_image hraw hout).trans hrawLen
  have hsame : out.drop 0 = image.drop 0 := by
    refine hp.laidOut.eq_of_segments hlen hsize.symm ?_
    intro j hj
    obtain ⟨i, hline, hji⟩ := hshow.code j hj
    obtain ⟨opcode, value, hop, hvalue, -, hpre⟩ := image_operand hp hraw (by omega) hout hj
    have hvalue := operand_eq hsym hdec hp hshow hsize hfit hclosed hj hline hji hvalue
    obtain ⟨-, -, opcode', hop', hbytes, hpre'⟩ :=
      Instruction.fetch?_eq_some_iff.mp (hdec j.address i hji.reached)
    rw [Expression.opcode?, hji.mnemonic, hji.mode, hop'] at hop
    cases hop
    rw [hji.mode, hvalue, ← hbytes] at hpre
    refine ⟨i.bytes, ?_, hpre, hpre'⟩
    rw [hbytes, List.length_cons, length_operandBytes, Expression.size, hji.mode, Mode.size]
  rw [List.drop_zero, List.drop_zero] at hsame
  rw [hout, hsame]

end Link

end Program.ShowsImage

end Mos6502
