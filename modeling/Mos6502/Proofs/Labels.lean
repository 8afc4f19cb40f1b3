/-
Mos6502/Proofs/Labels.lean

What the analysis of an image knows.  The sweep holds at every offset what the
decoder reads there (`Analysis.decodes_ofImage`), and every place inside the
image that reached code jumps to has a label (`Analysis.exists_labelAt?`).

Labels name their addresses.  As long as the given names are identifiers, every
label is one (`Analysis.readable_of_identifiers`); as long as each of them
labels its own address only, no two addresses have the same label
(`Analysis.labelAt?_injective`).  `SymbolMap.Legible` is a condition for both
that does not look at the image.
-/
import Mathlib.Data.List.Nodup
import Mos6502.Disassembly.Label
import Mos6502.Proofs.Decoding
import Mos6502.Proofs.LineText
import Mos6502.Proofs.Numerals

namespace Mos6502

/-! ### The sweep -/

theorem toList_sweepFrom (address : UInt16) (code : Bytes) (acc : Sweep) :
    (sweepFrom address code acc).toList = acc.toList ++
      (List.range code.length).map fun o =>
        Instruction.fetch? (address + o.toUInt16) (code.drop o) := by
  induction code generalizing address acc with
  | nil => exact (List.append_nil acc.toList).symm
  | cons b rest ih =>
    have hzero : address + (0 : Nat).toUInt16 = address := UInt16.add_zero address
    have hnext : ∀ o : Nat, address + 1 + o.toUInt16 = address + (o + 1).toUInt16 := by
      intro o
      rw [Nat.add_comm o 1, toUInt16_add, UInt16.add_assoc]
      rfl
    rw [sweepFrom, ih, Array.toList_push, List.append_assoc, List.singleton_append,
      List.length_cons, List.range_succ_eq_map, List.map_cons, hzero, List.drop_zero,
      List.map_map]
    congr 2
    apply List.map_congr_left
    intro o _
    rw [hnext]
    rfl

theorem size_sweep (origin : UInt16) (code : Bytes) : (sweep origin code).size = code.length := by
  rw [← Array.length_toList, sweep, toList_sweepFrom]
  simp

/-- The sweep holds what the decoder reads at an offset. -/
theorem sweep_at? (origin : UInt16) (code : Bytes) (o : Nat) :
    (sweep origin code).at? o = Instruction.fetch? (origin + o.toUInt16) (code.drop o) := by
  rw [Sweep.at?, ← Array.getElem?_toList, sweep, toList_sweepFrom]
  by_cases ho : o < code.length
  · simp [ho]
  · rw [List.drop_eq_nil_of_le (by omega)]
    simp [ho, Instruction.fetch?]

/-! ### Names -/

theorem LabelKind.labelName_injective {x y : UInt16} {k l : LabelKind}
    (h : k.labelName x = l.labelName y) : x = y := by
  cases k <;> cases l
  · exact Numeral.word_injective (List.cons.inj h).2
  · cases (List.cons.inj h).1
  · cases (List.cons.inj h).1
  · exact Numeral.word_injective (List.append_cancel_left h)

theorem LabelKind.isIdentifier_labelName (x : UInt16) (k : LabelKind) :
    isIdentifier (k.labelName x) = true := by
  have hword : ∀ b ∈ Numeral.word x, Byte.isNamePart b = true :=
    Numeral.forall_mem_hexPadded Numeral.isNamePart_upperDigit 4 x.toNat
  rw [isIdentifier_iff]
  cases k with
  | jump => exact ⟨0x4C, _, rfl, rfl, hword⟩
  | subroutine =>
    refine ⟨0x73, ascii "ub_" ++ Numeral.word x, rfl, rfl, ?_⟩
    intro c hc
    rcases List.mem_append.mp hc with hc | hc
    · exact (by decide +kernel : ∀ c ∈ ascii "ub_", Byte.isNamePart c = true) c hc
    · exact hword c hc

/-- A table of symbols whose names can be told apart in a text, from each
other and from made-up labels. -/
structure SymbolMap.Legible (symbols : SymbolMap) : Prop where
  nodup : (symbols.map Prod.fst).Nodup
  identifier : ∀ entry ∈ symbols, isIdentifier entry.1 = true
  not_madeUp : ∀ entry ∈ symbols, ∀ address kind, entry.1 ≠ LabelKind.labelName address kind

/-- A name that a table gives to an address, and the smallest of them. -/
def SymbolMap.Smallest (symbols : SymbolMap) (address : UInt16) (name : Bytes) : Prop :=
  (name, address) ∈ symbols ∧ ∀ other, (other, address) ∈ symbols → name ≤ other

namespace SymbolMap

variable {symbols : SymbolMap} {address : UInt16} {name : Bytes}

theorem Smallest.unique {other : Bytes} (h : symbols.Smallest address name)
    (h' : symbols.Smallest address other) : name = other :=
  List.le_antisymm (h.2 other h'.1) (h'.2 name h.1)

theorem nameAt?_concat (symbols : SymbolMap) (entry : Bytes × UInt16) (address : UInt16) :
    nameAt? (symbols ++ [entry]) address =
      if entry.2 == address then smallerName (symbols.nameAt? address) entry.1
      else symbols.nameAt? address := by
  rw [nameAt?, List.foldl_append]
  rfl

/-- The name of an address is the smallest one, if it has any. -/
theorem nameAt?_cases (symbols : SymbolMap) (address : UInt16) :
    (symbols.nameAt? address = none ∧ ∀ name, (name, address) ∉ symbols) ∨
      ∃ name, symbols.nameAt? address = some name ∧ symbols.Smallest address name := by
  -- the running minimum is that of the entries so far
  induction symbols using List.reverseRecOn with
  | nil => exact .inl ⟨rfl, by simp⟩
  | append_singleton symbols entry ih =>
    obtain ⟨other, x⟩ := entry
    rw [nameAt?_concat]
    by_cases hx : x = address
    · subst hx
      right
      rw [if_pos (beq_self_eq_true x)]
      rcases ih with ⟨hnone, hno⟩ | ⟨name, hname, hmem, hle⟩
      · rw [hnone]
        exact ⟨other, rfl, by simp, by simp [hno]⟩
      · rw [hname, smallerName]
        by_cases hlt : other < name
        · rw [if_pos hlt]
          refine ⟨other, rfl, by simp, ?_⟩
          intro third hthird
          rcases List.mem_append.mp hthird with hthird | hthird
          · exact List.le_trans (List.le_of_lt hlt) (hle third hthird)
          · cases List.mem_singleton.mp hthird
            exact List.le_refl other
        · rw [if_neg hlt]
          refine ⟨name, rfl, List.mem_append_left _ hmem, ?_⟩
          intro third hthird
          rcases List.mem_append.mp hthird with hthird | hthird
          · exact hle third hthird
          · cases List.mem_singleton.mp hthird
            exact List.not_lt.mp hlt
    · -- an entry for another address is no name of this one
      have hmem : ∀ name, (name, address) ∈ symbols ++ [(other, x)] ↔
          (name, address) ∈ symbols := by
        simp [Ne.symm hx]
      rw [if_neg (by simpa using hx)]
      simpa only [Smallest, hmem] using ih

theorem nameAt?_eq_some_iff :
    symbols.nameAt? address = some name ↔ symbols.Smallest address name := by
  rcases nameAt?_cases symbols address with ⟨hnone, hno⟩ | ⟨other, hother, hsmallest⟩
  · rw [hnone]
    constructor
    · intro h
      cases h
    · intro h
      exact absurd h.1 (hno name)
  · rw [hother, Option.some.injEq]
    exact ⟨fun h => h ▸ hsmallest, hsmallest.unique⟩

theorem nameAt?_eq_none_iff :
    symbols.nameAt? address = none ↔ ∀ name, (name, address) ∉ symbols := by
  rcases nameAt?_cases symbols address with ⟨hnone, hno⟩ | ⟨other, hother, hmem, -⟩
  · exact ⟨fun _ => hno, fun _ => hnone⟩
  · rw [hother]
    constructor
    · intro h
      cases h
    · intro h
      exact absurd hmem (h other)

/-- The name of an address is an entry of the table. -/
theorem mem_of_nameAt? (h : symbols.nameAt? address = some name) : (name, address) ∈ symbols :=
  (nameAt?_eq_some_iff.mp h).1

end SymbolMap

namespace Analysis

variable {a : Analysis} {x y : UInt16} {name : Bytes}

theorem exists_kind_of_madeUpAt? (h : a.madeUpAt? x = some name) :
    ∃ kind : LabelKind, name = kind.labelName x := by
  unfold madeUpAt? at h
  obtain ⟨o, -, h⟩ := Option.bind_eq_some_iff.mp h
  obtain ⟨kind, -, h⟩ := Option.bind_eq_some_iff.mp h
  cases h
  exact ⟨kind, rfl⟩

/-- A label is a given name or a made-up one. -/
theorem labelAt?_cases (h : a.labelAt? x = some name) :
    (name, x) ∈ a.symbols ∨ ∃ kind : LabelKind, name = kind.labelName x := by
  unfold labelAt? at h
  split at h
  · next name' hname =>
    cases h
    exact .inl (SymbolMap.mem_of_nameAt? hname)
  · exact .inr (exists_kind_of_madeUpAt? h)

/-- A given name labels its own address only: it is not the made-up label of
another one. -/
def Unambiguous (a : Analysis) : Prop :=
  ∀ entry ∈ a.symbols, ∀ x, a.labelAt? x = some entry.1 → x = entry.2

/-- **No two addresses have the same label.** -/
theorem labelAt?_injective (hown : a.Unambiguous) (hx : a.labelAt? x = some name)
    (hy : a.labelAt? y = some name) : x = y := by
  rcases labelAt?_cases hx with hx' | ⟨k, hx'⟩
  · exact (hown _ hx' y hy).symm
  · rcases labelAt?_cases hy with hy' | ⟨l, hy'⟩
    · exact hown _ hy' x hx
    · exact LabelKind.labelName_injective (hx'.symm.trans hy')

/-- Every label can be read back. -/
def Readable (a : Analysis) : Prop :=
  ∀ x name, a.labelAt? x = some name → isIdentifier name = true

theorem readable_of_identifiers (hid : ∀ entry ∈ a.symbols, isIdentifier entry.1 = true) :
    a.Readable := by
  intro x name h
  rcases labelAt?_cases h with h | ⟨k, rfl⟩
  · exact hid _ h
  · exact k.isIdentifier_labelName x

end Analysis

theorem SymbolMap.Legible.unambiguous {a : Analysis} (hsym : a.symbols.Legible) :
    a.Unambiguous := by
  intro entry hentry x hx
  rcases Analysis.labelAt?_cases hx with hx | ⟨k, hx⟩
  · have hpair := List.inj_on_of_nodup_map hsym.nodup hx hentry rfl
    exact congrArg Prod.snd hpair
  · exact absurd hx (hsym.not_madeUp entry hentry x k)

theorem SymbolMap.Legible.readable {a : Analysis} (hsym : a.symbols.Legible) : a.Readable :=
  Analysis.readable_of_identifiers hsym.identifier

/-! ### Destinations -/

theorem offsetOf?_eq_some_iff {origin address : UInt16} {length o : Nat} :
    offsetOf? origin length address = some o ↔
      address.toNat = origin.toNat + o ∧ o < length := by
  unfold offsetOf?
  rw [Option.ite_none_right_eq_some]
  simp only [Bool.and_eq_true, decide_eq_true_eq, UInt16.le_iff_toNat_le, Option.some.injEq]
  omega

/-- The marked instructions are those at the marked offsets. -/
theorem mem_markedInstructions_iff {s : Sweep} {marked : Array Bool} {i : Instruction} :
    i ∈ markedInstructions s marked ↔ ∃ o : Nat, marked[o]? = some true ∧ s.at? o = some i := by
  have hat : ∀ o : Nat, s.at? o = some i ↔ s[o]? = some (some i) := fun o => Option.join_eq_some_iff
  simp only [markedInstructions, List.mem_filterMap, hat]
  constructor
  · rintro ⟨⟨entry, isMarked⟩, hmem, hi⟩
    obtain ⟨o, ho⟩ := List.mem_iff_getElem?.mp hmem
    rw [List.getElem?_zip_eq_some, Array.getElem?_toList, Array.getElem?_toList] at ho
    rw [Option.ite_none_right_eq_some] at hi
    obtain ⟨rfl, rfl⟩ := hi
    exact ⟨o, ho.2, ho.1⟩
  · rintro ⟨o, hmarked, hentry⟩
    refine ⟨(some i, true), List.mem_of_getElem? (i := o) ?_, rfl⟩
    rw [List.getElem?_zip_eq_some, Array.getElem?_toList, Array.getElem?_toList]
    exact ⟨hentry, hmarked⟩

section Kinds

variable {origin : UInt16} {kinds : Array (Option LabelKind)} {i : Instruction} {o : Nat}

@[simp] theorem size_addTarget (origin : UInt16) (kinds : Array (Option LabelKind))
    (i : Instruction) : (addTarget origin kinds i).size = kinds.size := by
  unfold addTarget
  split
  · rfl
  · rw [Array.size_modify]

theorem size_foldl_addTarget (origin : UInt16) (l : List Instruction)
    (kinds : Array (Option LabelKind)) :
    (l.foldl (addTarget origin) kinds).size = kinds.size := by
  induction l generalizing kinds with
  | nil => rfl
  | cons i rest ih => rw [List.foldl_cons, ih, size_addTarget]

/-- The kind of label of a place, by whether something calls it and whether
something goes there. -/
def LabelKind.ofUse (called targeted : Bool) : Option LabelKind :=
  if called then some .subroutine else if targeted then some .jump else none

/-- One more jump to a place. -/
theorem LabelKind.join_ofUse (call called targeted : Bool) :
    LabelKind.join call (ofUse called targeted) = ofUse (called || call) true := by
  cases call <;> cases called <;> cases targeted <;> rfl

theorem getElem?_addTarget (origin : UInt16) (kinds : Array (Option LabelKind)) (i : Instruction)
    (o : Nat) : (addTarget origin kinds i)[o]? =
      if i.targetOffset? origin kinds.size = some o then kinds[o]?.map (LabelKind.join i.isCall)
      else kinds[o]? := by
  unfold addTarget
  rcases i.targetOffset? origin kinds.size with - | o'
  · simp
  · simp [Array.getElem?_modify]

/-- **The label of an offset does not depend on the order** in which the
instructions that go there are found: a call among them decides. -/
theorem getElem?_labelKinds {s : Sweep} (marked : Array Bool) (ho : o < s.size) :
    (labelKinds origin s marked)[o]? = some (LabelKind.ofUse
      ((markedInstructions s marked).any fun i =>
        i.isCall && decide (i.targetOffset? origin s.size = some o))
      ((markedInstructions s marked).any fun i =>
        decide (i.targetOffset? origin s.size = some o))) := by
  unfold labelKinds
  generalize markedInstructions s marked = l
  induction l using List.reverseRecOn with
  | nil => simp [ho, LabelKind.ofUse]
  | append_singleton l i ih =>
    rw [List.foldl_append, List.foldl_cons, List.foldl_nil, getElem?_addTarget,
      size_foldl_addTarget, Array.size_replicate, ih, List.any_append, List.any_append]
    by_cases hi : i.targetOffset? origin s.size = some o
    · rw [if_pos hi, Option.map_some, LabelKind.join_ofUse]
      simp [hi]
    · rw [if_neg hi]
      simp [hi]

end Kinds

/-! ### Images -/

namespace Analysis

variable {origin : UInt16} {symbols : SymbolMap} {code : Bytes} {o : Nat} {i : Instruction}

theorem codeAt?_eq_some_iff {a : Analysis} :
    a.codeAt? o = some i ↔ a.marked[o]? = some true ∧ a.sweep.at? o = some i := by
  rw [codeAt?, Option.ite_none_right_eq_some]
  rcases a.marked[o]? with - | isMarked <;> simp

/-- The made-up label of an address inside the image. -/
theorem madeUpAt?_eq {a : Analysis} {x : UInt16} {kind : Option LabelKind}
    (hx : x.toNat = a.origin.toNat + o) (hkind : a.kinds[o]? = some kind) :
    a.madeUpAt? x = kind.map (LabelKind.labelName x) := by
  have ho : o < a.kinds.size := (Array.getElem?_eq_some_iff.mp hkind).1
  show (offsetOf? a.origin a.kinds.size x).bind _ = _
  rw [offsetOf?_eq_some_iff.mpr ⟨hx, ho⟩, Option.bind_some, hkind]
  cases kind <;> rfl

/-- Reached code is what the decoder reads there. -/
def Decodes (a : Analysis) (code : Bytes) : Prop :=
  ∀ o i, a.codeAt? o = some i → Instruction.fetch? (a.addressOf o) (code.drop o) = some i

theorem decodes_ofImage (origin : UInt16) (symbols : SymbolMap) (code : Bytes) :
    (ofImage origin symbols code).Decodes code := by
  intro o i h
  show Instruction.fetch? (origin + o.toUInt16) (code.drop o) = some i
  rw [← sweep_at?]
  exact (codeAt?_eq_some_iff.mp h).2

/-- **A place inside the image that reached code jumps to has a label.** -/
theorem exists_labelAt? (h : (ofImage origin symbols code).codeAt? o = some i) {t : UInt16}
    (ht : i.target? = some t) (hlow : origin.toNat ≤ t.toNat)
    (hhigh : t.toNat < origin.toNat + code.length) :
    ∃ name, (ofImage origin symbols code).labelAt? t = some name := by
  have hlt : t.toNat - origin.toNat < (Mos6502.sweep origin code).size := by
    rw [size_sweep]
    omega
  have hmem : i ∈ markedInstructions (Mos6502.sweep origin code)
      (markAll origin (Mos6502.sweep origin code) symbols) :=
    mem_markedInstructions_iff.mpr ⟨o, codeAt?_eq_some_iff.mp h⟩
  have hoffset : i.targetOffset? origin (Mos6502.sweep origin code).size =
      some (t.toNat - origin.toNat) := by
    rw [Instruction.targetOffset?, ht]
    exact offsetOf?_eq_some_iff.mpr ⟨by omega, hlt⟩
  have htargeted : ((markedInstructions (Mos6502.sweep origin code)
      (markAll origin (Mos6502.sweep origin code) symbols)).any fun i => decide
        (i.targetOffset? origin (Mos6502.sweep origin code).size =
          some (t.toNat - origin.toNat))) = true :=
    List.any_eq_true.mpr ⟨i, hmem, decide_eq_true hoffset⟩
  have hmade := madeUpAt?_eq (a := ofImage origin symbols code) (x := t)
    (Nat.add_sub_cancel' hlow).symm (getElem?_labelKinds _ hlt)
  rw [htargeted] at hmade
  unfold labelAt?
  split
  · next name _ => exact ⟨name, rfl⟩
  · rw [hmade]
    unfold LabelKind.ofUse
    split <;> exact ⟨_, rfl⟩

end Analysis

end Mos6502
