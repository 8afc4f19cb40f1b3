/-
Mos6502/Proofs/Tiling.lean

Where the lines of a disassembly stand.  The offset of a line is the number of
bytes on the lines before it, and a line shows what the analysis knows of its
offset (`Line.StandsAt`): a declaration shows the label there, a code line the
instruction that control reaches there, a data line that there is none.

* `Analysis.flatMap_bytes_lines`: the bytes on the lines are the image;
* `Analysis.standsAt_of_getElem?`: every line stands at its offset;
* `Analysis.onLine`: every offset of the image is on a line, and if no line
  starts there it is inside an instruction, or inside a data line and then
  neither code nor labelled.

The first two are read off from the order of the lines (`Line.InOrder`), the
last one from the tiling itself, which also says that the label of a line is
declared in front of it.
-/
import Mos6502.Proofs.Patching
import Mos6502.Proofs.Rendering

namespace Mos6502

/-! ### Lines in order -/

/-- A line that shows what is known of an offset. -/
def Line.StandsAt (a : Analysis) (o : Nat) : Line → Prop
  | .label name => a.labelAt? (a.addressOf o) = some name
  | .code i => a.codeAt? o = some i
  | .data x _ => a.codeAt? o = none ∧ x = a.addressOf o

/-- The offset of the `k`-th line. -/
def Line.offset (lines : List Line) (k : Nat) : Nat :=
  ((lines.take k).flatMap Line.bytes).length

/-- Lines that stand one after the other, the first of them at an offset, all of
them at addresses. -/
def Line.InOrder (a : Analysis) : Nat → List Line → Prop
  | _, [] => True
  | o, line :: rest => a.origin.toNat + o < addressSpace ∧ line.StandsAt a o ∧
      InOrder a (o + line.bytes.length) rest

theorem Line.inOrder_append {a : Analysis} {l₁ l₂ : List Line} {o : Nat} :
    InOrder a o (l₁ ++ l₂) ↔
      InOrder a o l₁ ∧ InOrder a (o + (l₁.flatMap Line.bytes).length) l₂ := by
  induction l₁ generalizing o with
  | nil => simp [InOrder]
  | cons line rest ih =>
    simp [InOrder, ih, and_assoc, Nat.add_assoc]

theorem Line.InOrder.standsAt {a : Analysis} {lines : List Line} (h : InOrder a 0 lines) {k : Nat}
    {line : Line} (hk : lines[k]? = some line) :
    a.origin.toNat + offset lines k < addressSpace ∧ line.StandsAt a (offset lines k) := by
  obtain ⟨hlt, rfl⟩ := List.getElem?_eq_some_iff.mp hk
  rw [← List.take_append_drop k lines, List.drop_eq_getElem_cons hlt] at h
  obtain ⟨hfit, hat, -⟩ := (inOrder_append.mp h).2
  rw [Nat.zero_add] at hfit hat
  exact ⟨hfit, hat⟩

/-- A line ends before the lines do. -/
theorem Line.offset_add_le {lines : List Line} {k : Nat} {line : Line}
    (hk : lines[k]? = some line) :
    offset lines k + line.bytes.length ≤ (lines.flatMap Line.bytes).length := by
  obtain ⟨hlt, rfl⟩ := List.getElem?_eq_some_iff.mp hk
  unfold offset
  conv_rhs => rw [← List.take_append_drop k lines, List.drop_eq_getElem_cons hlt]
  simp only [List.flatMap_append, List.flatMap_cons, List.length_append]
  omega

/-- A line ends before any later line starts. -/
theorem Line.offset_add_le_offset {lines : List Line} {k m : Nat} {line : Line}
    (hk : lines[k]? = some line) (hkm : k < m) :
    offset lines k + line.bytes.length ≤ offset lines m := by
  have htake : (lines.take m)[k]? = some line := by
    rw [List.getElem?_take_of_lt hkm]
    exact hk
  have hend := offset_add_le htake
  rwa [offset, List.take_take, Nat.min_eq_left (by omega)] at hend

namespace Analysis

variable {a : Analysis} {code : Bytes} {o : Nat} {rest : Bytes} {lines : List Line}

/-! ### Data lines -/

theorem dataRun_le (a : Analysis) (limit offset : Nat) (tail : Bytes) :
    a.dataRun limit offset tail ≤ limit ∧ a.dataRun limit offset tail ≤ tail.length := by
  fun_induction dataRun a limit offset tail with
  | case1 => simp
  | case2 => simp
  | case3 => simp
  | case4 limit offset b rest _ ih =>
    simp only [List.length_cons]
    omega

/-- Inside a data line there is neither code nor a label. -/
theorem breaksData_of_lt_dataRun {limit offset : Nat} {tail : Bytes} {k : Nat}
    (hk : k < a.dataRun limit offset tail) : a.breaksData (offset + k) = false := by
  fun_induction dataRun a limit offset tail generalizing k with
  | case1 => simp at hk
  | case2 => simp at hk
  | case3 => simp at hk
  | case4 limit offset b rest hbreak ih =>
    rcases k with - | k
    · simpa using hbreak
    · rw [show offset + (k + 1) = offset + 1 + k by omega]
      exact ih (by omega)

theorem breaksData_eq_false_iff {x : Nat} :
    a.breaksData x = false ↔ a.codeAt? x = none ∧ a.labelAt? (a.addressOf x) = none := by
  simp [breaksData]

/-! ### The lines of an image -/

/-- What is left of an image after a data line. -/
theorem drop_of_eq_drop {b : UInt8} {tail : Bytes} (h : b :: tail = code.drop o) (run : Nat) :
    tail.drop run = code.drop (o + (run + 1)) := by
  rw [← List.drop_drop, ← h, List.drop_succ_cons]

@[simp] theorem flatMap_bytes_declaration (a : Analysis) (o : Nat) :
    (a.declaration o).toList.flatMap Line.bytes = [] := by
  rw [List.flatMap_eq_nil_iff]
  intro line hline
  obtain ⟨name, -, rfl⟩ := mem_declaration_iff.mp hline
  rfl

theorem inOrder_declaration (hfit : a.origin.toNat + o < addressSpace) :
    Line.InOrder a o (a.declaration o).toList := by
  unfold declaration
  rcases hlabel : a.labelAt? (a.addressOf o) with - | name
  · exact trivial
  · exact ⟨hfit, hlabel, trivial⟩

theorem length_bytes_of_codeAt? (hdec : a.Decodes code) {i : Instruction}
    (hcode : a.codeAt? o = some i) : i.bytes.length = i.mode.size :=
  Instruction.length_bytes_of_fetch? (hdec o i hcode)

theorem address_of_codeAt? (hdec : a.Decodes code) {i : Instruction}
    (hcode : a.codeAt? o = some i) : i.address = a.addressOf o :=
  (Instruction.fetch?_eq_some_iff.mp (hdec o i hcode)).1

theorem exists_codeAt?_of_mem {i : Instruction} (hline : Line.code i ∈ a.lines code) :
    ∃ o, a.codeAt? o = some i := by
  rcases cases_of_mem_lines hline with ⟨_, _, _, h⟩ | ⟨o, _, hcode, h⟩ | ⟨_, _, h⟩ <;> cases h
  exact ⟨o, hcode⟩

theorem Tiles.inOrder (hdec : a.Decodes code) (h : a.Tiles o rest lines)
    (hfit : rest ≠ [] → a.origin.toNat + o + rest.length ≤ addressSpace) :
    Line.InOrder a o lines := by
  -- nothing is said of where an empty rest starts, so a last instruction needs no case of its own
  induction h with
  | done => exact trivial
  | @code o rest i lines hne hcode _ ih =>
    have hfit := hfit hne
    have hpos : 0 < rest.length := List.length_pos_iff.mpr hne
    rw [Line.inOrder_append, flatMap_bytes_declaration]
    refine ⟨inOrder_declaration (by omega), ?_, hcode, ?_⟩
    · show a.origin.toNat + o < addressSpace
      omega
    · show Line.InOrder a (o + i.bytes.length) lines
      rw [length_bytes_of_codeAt? hdec hcode]
      apply ih
      intro hmore
      rw [← List.length_pos_iff, List.length_drop] at hmore
      rw [List.length_drop]
      omega
  | @data o run b tail lines hcode hrun _ ih =>
    have hfit := hfit (List.cons_ne_nil b tail)
    have hle := (a.dataRun_le (bytesPerLine - 1) (o + 1) tail).2
    rw [List.length_cons] at hfit
    rw [Line.inOrder_append, flatMap_bytes_declaration]
    refine ⟨inOrder_declaration (by omega), ?_, ⟨hcode, rfl⟩, ?_⟩
    · show a.origin.toNat + o < addressSpace
      omega
    · show Line.InOrder a (o + (b :: tail.take run).length) lines
      rw [List.length_cons, List.length_take, Nat.min_eq_left (by omega)]
      apply ih
      intro _
      rw [List.length_drop]
      omega

theorem Tiles.flatMap_bytes (hdec : a.Decodes code) (h : a.Tiles o rest lines)
    (hrest : rest = code.drop o) : lines.flatMap Line.bytes = rest := by
  induction h with
  | done => rfl
  | @code o rest i lines _ hcode _ ih =>
    -- the bytes of an instruction are the next ones of the image
    obtain ⟨-, -, opcode, -, -, hpre⟩ := Instruction.fetch?_eq_some_iff.mp (hdec o i hcode)
    have hbytes : i.bytes = rest.take i.mode.size := by
      rw [hrest, ← length_bytes_of_codeAt? hdec hcode]
      exact List.prefix_iff_eq_take.mp hpre
    rw [List.flatMap_append, flatMap_bytes_declaration, List.nil_append, List.flatMap_cons,
      ih (by rw [hrest, List.drop_drop])]
    show i.bytes ++ rest.drop i.mode.size = rest
    rw [hbytes, List.take_append_drop]
  | @data o run b tail lines _ _ _ ih =>
    rw [List.flatMap_append, flatMap_bytes_declaration, List.nil_append, List.flatMap_cons,
      ih (drop_of_eq_drop hrest run)]
    show b :: (tail.take run ++ tail.drop run) = b :: tail
    rw [List.take_append_drop]

theorem flatMap_bytes_endLabel (a : Analysis) (length : Nat) :
    (a.endLabel length).flatMap Line.bytes = [] := by
  rw [List.flatMap_eq_nil_iff]
  intro line hline
  obtain ⟨-, name, -, rfl⟩ := mem_endLabel_iff.mp hline
  rfl

/-- **The bytes on the lines are the image.** -/
theorem flatMap_bytes_lines (hdec : a.Decodes code) :
    (a.lines code).flatMap Line.bytes = code := by
  obtain ⟨body, hlines, htiles⟩ := a.lines_tiles code
  rw [hlines, List.flatMap_append, flatMap_bytes_endLabel, List.append_nil]
  exact htiles.flatMap_bytes hdec rfl

theorem lines_inOrder (hdec : a.Decodes code)
    (hfit : a.origin.toNat + code.length ≤ addressSpace) : Line.InOrder a 0 (a.lines code) := by
  obtain ⟨body, hlines, htiles⟩ := a.lines_tiles code
  rw [hlines, Line.inOrder_append, htiles.flatMap_bytes hdec rfl, Nat.zero_add]
  refine ⟨htiles.inOrder hdec (fun _ => hfit), ?_⟩
  unfold endLabel
  split
  · next hlt =>
    rcases hname : a.symbols.nameAt? (a.addressOf code.length) with - | name
    · exact trivial
    · exact ⟨hlt, labelAt?_of_nameAt? hname, trivial⟩
  · exact trivial

/-- **Every line stands at the offset that the bytes before it add up to.** -/
theorem standsAt_of_getElem? (hdec : a.Decodes code)
    (hfit : a.origin.toNat + code.length ≤ addressSpace) {k : Nat} {line : Line}
    (hk : (a.lines code)[k]? = some line) :
    a.origin.toNat + Line.offset (a.lines code) k < addressSpace ∧
      line.StandsAt a (Line.offset (a.lines code) k) :=
  (lines_inOrder hdec hfit).standsAt hk

theorem toNat_addressOf (hfit : a.origin.toNat + o < addressSpace) :
    (a.addressOf o).toNat = a.origin.toNat + o := by
  rw [addressOf, toNat_origin_add, Nat.mod_eq_of_lt hfit]

/-- A data line holds at least one byte and no more than fit on it. -/
theorem Tiles.length_data (h : a.Tiles o rest lines) {x : UInt16} {bytes : Bytes}
    (hline : Line.data x bytes ∈ lines) : 1 ≤ bytes.length ∧ bytes.length ≤ bytesPerLine := by
  have hdecl : ∀ o, Line.data x bytes ∉ (a.declaration o).toList := by
    intro o hmem
    obtain ⟨name, -, heq⟩ := mem_declaration_iff.mp hmem
    cases heq
  induction h with
  | done => simp at hline
  | code _ _ _ ih =>
    apply ih
    simpa [hdecl] using hline
  | @data o run b tail lines _ hrun _ ih =>
    have hle := a.dataRun_le (bytesPerLine - 1) (o + 1) tail
    simp only [List.mem_append, hdecl, false_or, List.mem_cons] at hline
    rcases hline with heq | hmem
    · cases heq
      rw [← hrun, bytesPerLine] at hle
      rw [List.length_cons, List.length_take, bytesPerLine]
      omega
    · exact ih hmem

theorem length_data {x : UInt16} {bytes : Bytes} (hline : Line.data x bytes ∈ a.lines code) :
    1 ≤ bytes.length ∧ bytes.length ≤ bytesPerLine := by
  obtain ⟨body, hlines, htiles⟩ := a.lines_tiles code
  rw [hlines] at hline
  rcases List.mem_append.mp hline with hmem | hmem
  · exact htiles.length_data hmem
  · obtain ⟨-, name, -, heq⟩ := mem_endLabel_iff.mp hmem
    cases heq

/-! ### Offsets on lines -/

/-- A line that opens at an offset: it is there, with the label of the offset
declared. -/
structure Opens (a : Analysis) (lines : List Line) (s : Nat) (line : Line) : Prop where
  mem : line ∈ lines
  declared : ∀ name, a.labelAt? (a.addressOf s) = some name → Line.label name ∈ lines

/-- An offset on one of the lines. -/
inductive OnLine (a : Analysis) (code : Bytes) (lines : List Line) (x : Nat) : Prop
  /-- It belongs to an instruction. -/
  | code {s : Nat} {i : Instruction} : a.codeAt? s = some i → a.Opens lines s (.code i) →
      s ≤ x → x < s + i.mode.size → OnLine a code lines x
  /-- It belongs to a data line.  If it is not the first on it, it has no
  label. -/
  | data {s : Nat} {bytes : Bytes} : a.Opens lines s (.data (a.addressOf s) bytes) →
      s ≤ x → x < s + bytes.length → bytes[x - s]? = code[x]? → a.codeAt? x = none →
      (s ≠ x → a.labelAt? (a.addressOf x) = none) → OnLine a code lines x

theorem Opens.mono {lines' : List Line} {s : Nat} {line : Line} (h : a.Opens lines s line)
    (hsub : lines ⊆ lines') : a.Opens lines' s line :=
  ⟨hsub h.mem, fun name hname => hsub (h.declared name hname)⟩

theorem OnLine.mono {lines' : List Line} {x : Nat} (h : a.OnLine code lines x)
    (hsub : lines ⊆ lines') : a.OnLine code lines' x := by
  cases h with
  | code hcode hopens hlow hhigh => exact .code hcode (hopens.mono hsub) hlow hhigh
  | data hopens hlow hhigh hbyte hcode hlabel =>
    exact .data (hopens.mono hsub) hlow hhigh hbyte hcode hlabel

theorem opens_head (a : Analysis) (o : Nat) (line : Line) (lines : List Line) :
    a.Opens ((a.declaration o).toList ++ line :: lines) o line := by
  refine ⟨by simp, ?_⟩
  intro name hname
  apply List.mem_append_left
  exact mem_declaration_iff.mpr ⟨name, hname, rfl⟩

theorem Tiles.onLine (h : a.Tiles o rest lines) (hrest : rest = code.drop o) {x : Nat}
    (hlow : o ≤ x) (hhigh : x < o + rest.length) : a.OnLine code lines x := by
  induction h with
  | done => simp at hhigh; omega
  | @code o rest i lines _ hcode _ ih =>
    by_cases hx : x < o + i.mode.size
    · exact .code hcode (a.opens_head o _ _) hlow hx
    · -- the offset is on a later line
      refine (ih (by rw [hrest, List.drop_drop]) (by omega) ?_).mono ?_
      · rw [List.length_drop]
        omega
      · intro line hline
        simp [hline]
  | @data o run b tail lines hcode hrun _ ih =>
    have hle := (a.dataRun_le (bytesPerLine - 1) (o + 1) tail).2
    rw [List.length_cons] at hhigh
    by_cases hx : x < o + (run + 1)
    · have hinside : o ≠ x → a.breaksData x = false := by
        intro hne
        have hlt : x - (o + 1) < a.dataRun (bytesPerLine - 1) (o + 1) tail := by omega
        rw [show x = o + 1 + (x - (o + 1)) by omega]
        exact breaksData_of_lt_dataRun hlt
      refine .data (a.opens_head o _ _) hlow ?_ ?_ ?_ ?_
      · rw [List.length_cons, List.length_take]
        omega
      · show (b :: tail.take run)[x - o]? = code[x]?
        rw [← List.take_succ_cons, List.getElem?_take_of_lt (by omega), hrest, List.getElem?_drop]
        congr 1
        omega
      · by_cases hne : o = x
        · rw [← hne]
          exact hcode
        · exact (breaksData_eq_false_iff.mp (hinside hne)).1
      · intro hne
        exact (breaksData_eq_false_iff.mp (hinside hne)).2
    · refine (ih (drop_of_eq_drop hrest run) (by omega) ?_).mono ?_
      · rw [List.length_drop]
        omega
      · intro line hline
        simp [hline]

/-- **Every offset of an image is on a line.** -/
theorem onLine (a : Analysis) (code : Bytes) {x : Nat} (hx : x < code.length) :
    a.OnLine code (a.lines code) x := by
  obtain ⟨body, hlines, htiles⟩ := a.lines_tiles code
  rw [hlines]
  exact (htiles.onLine rfl (Nat.zero_le x) (by omega)).mono (List.subset_append_left _ _)

end Analysis

end Mos6502
