/-
Mos6502/Proofs/Emission.lean

The emitted section against the expressions it comes from.  Bytes and
relocations are computed by two passes that do not know of each other, and
both use the addresses that a third one has recorded; the layout ties them
together.

* `rawBytes_eq_error_iff` — emission stops at the first branch whose label is
  undeclared or out of reach (`BranchFault`), and at nothing else.
* `length_rawBytes`, `rawBytes_segment` — otherwise the bytes fill the section
  and every expression's bytes stand at its address.
* `forall₂_relocations` — the relocations are the label operands in order,
  each at the first operand byte (`Relocation.Records`).

The slot of a relocation is the operand of its own expression, so two slots
never meet and none covers an opcode (`relocations_pairwise`,
`Relocation.Records.not_covers_address`).
-/
import Mos6502.Proofs.Displacement
import Mos6502.Proofs.Layout
import Mos6502.Section

namespace Mos6502

/-! ### Segments -/

theorem getElem?_of_prefix_drop {bytes image : Bytes} {offset k : Nat}
    (h : bytes <+: image.drop offset) (hk : k < bytes.length) :
    image[offset + k]? = bytes[k]? := by
  rw [← List.getElem?_drop, List.prefix_iff_getElem?.mp h k hk, List.getElem?_eq_getElem hk]

/-- Byte strings of the right sizes, joined in the order of the code, fill its
layout, and each of them stands at its address. -/
theorem LaidOut.segments {R : Placed → Bytes → Prop}
    (hR : ∀ {i bytes}, R i bytes → bytes.length = i.expression.size) {a z : Nat}
    {code : List Placed} {parts : List Bytes} (h : LaidOut a code z)
    (hparts : List.Forall₂ R code parts) :
    a + parts.flatten.length = z ∧
      ∀ i ∈ code, ∃ bytes, R i bytes ∧ bytes <+: parts.flatten.drop (i.address - a) := by
  induction h generalizing parts with
  | nil a =>
    cases hparts
    exact ⟨rfl, by simp⟩
  | @cons a z e rest hrest ih =>
    cases hparts with
    | @cons _ bytes _ more hbytes hmore =>
      have hlen : bytes.length = e.size := hR hbytes
      obtain ⟨htotal, hseg⟩ := ih hmore
      refine ⟨?_, ?_⟩
      · rw [List.flatten_cons, List.length_append]
        omega
      · intro i hi
        rcases List.mem_cons.mp hi with rfl | hi
        · refine ⟨bytes, hbytes, ?_⟩
          rw [Nat.sub_self, List.drop_zero, List.flatten_cons]
          exact List.prefix_append bytes more.flatten
        · -- a later expression: the bytes of the first one are dropped whole
          obtain ⟨later, hlater, hpre⟩ := hseg i hi
          have hle := (hrest.bounds hi).1
          have hsub : i.address - a = bytes.length + (i.address - (a + e.size)) := by omega
          refine ⟨later, hlater, ?_⟩
          rw [List.flatten_cons, hsub, List.drop_length_add_append]
          exact hpre

/-- Two images that hold the same bytes at every expression of a layout are
the same. -/
theorem LaidOut.eq_of_segments {a z : Nat} {code : List Placed} {x y : Bytes}
    (h : LaidOut a code z) (hx : x.length = z) (hy : y.length = z)
    (hseg : ∀ i ∈ code, ∃ bytes : Bytes, bytes.length = i.expression.size ∧
      bytes <+: x.drop i.address ∧ bytes <+: y.drop i.address) : x.drop a = y.drop a := by
  induction h with
  | nil a => rw [List.drop_eq_nil_of_le (by omega), List.drop_eq_nil_of_le (by omega)]
  | @cons a z e rest _ ih =>
    have hrest := ih hx hy fun i hi => hseg i (List.mem_cons_of_mem _ hi)
    obtain ⟨bytes, hlen, ⟨s, hs⟩, ⟨t, ht⟩⟩ := hseg ⟨a, e⟩ List.mem_cons_self
    dsimp only at hlen hs ht
    -- what follows the bytes is the image from the next expression on
    have hs' : s = x.drop (a + e.size) := by
      rw [← List.drop_drop, ← hs, ← hlen, List.drop_left]
    have ht' : t = y.drop (a + e.size) := by
      rw [← List.drop_drop, ← ht, ← hlen, List.drop_left]
    rw [← hs, ← ht, hs', ht', hrest]

/-! ### Bytes of one expression -/

@[simp] theorem length_operandBytes (mode : Mode) (value : Value) :
    (operandBytes mode value).length = mode.operandLength := by
  cases mode <;> cases value <;> rfl

/-- A label operand is emitted as placeholders. -/
theorem operandBytes_label (mode : Mode) (name : Bytes) :
    operandBytes mode (.label name) = List.replicate mode.operandLength placeholder := by
  cases mode <;> rfl

/-- A branch to a label that emission refuses, with the error it raises: the
label is not declared, or the distance from the byte after the branch does not
fit in a signed byte. -/
inductive BranchFault (p : Program) (i : Placed) : SymbolError → Prop
  | undeclared {name : Bytes} :
      i.expression.mode = .relative → i.expression.operand = .label name →
      p.symbol? name = none →
      BranchFault p i ⟨name, i.expression.line, .undefinedSymbol, ascii "branch target"⟩
  | outOfReach {name : Bytes} {s : Symbol} :
      i.expression.mode = .relative → i.expression.operand = .label name →
      p.symbol? name = some s →
      ¬ (-128 ≤ (s.address : Int) - (i.address + 2) ∧
        (s.address : Int) - (i.address + 2) ≤ 127) →
      BranchFault p i ⟨name, i.expression.line, .branchOutOfRange,
        distanceDetail ((s.address : Int) - (i.address + 2))⟩

namespace Program

variable {p : Program} {i : Placed}

theorem branchByte_eq_error_iff {cause : SymbolError} :
    (i.expression.mode = .relative ∧ p.branchByte i = .error cause) ↔ BranchFault p i cause := by
  constructor
  · rintro ⟨hmode, h⟩
    unfold branchByte at h
    split at h
    · next name hname =>
      split at h
      · next hnone =>
        cases h
        exact .undeclared hmode hname hnone
      · next s hs =>
        split at h
        · cases h
        · next distance hd =>
          cases h
          obtain ⟨hfar, rfl⟩ := displacement_eq_error_iff.mp hd
          exact .outOfReach hmode hname hs hfar
    · cases h
  · intro h
    cases h with
    | undeclared hmode hname hnone =>
      refine ⟨hmode, ?_⟩
      simp only [branchByte, hname, hnone]
    | outOfReach hmode hname hs hfar =>
      refine ⟨hmode, ?_⟩
      have hd := displacement_eq_error_iff.mpr ⟨hfar, rfl⟩
      simp only [branchByte, hname, hs, hd]

/-- The displacement byte of a branch to a label. -/
theorem branchByte_label {name : Bytes} {d : UInt8} (hname : i.expression.operand = .label name)
    (h : p.branchByte i = .ok d) :
    ∃ s, p.symbol? name = some s ∧ displacement s.address i.address = .ok d := by
  simp only [branchByte, hname] at h
  split at h
  · cases h
  · next s hs =>
    split at h
    · next hd =>
      cases h
      exact ⟨s, hs, hd⟩
    · cases h

/-- What an emitted expression looks like: its opcode, then the displacement
of a branch or the operand bytes of any other mode. -/
theorem emit_eq_ok_iff {bytes : Bytes} :
    p.emit i = .ok bytes ↔ ∃ opcode, i.expression.opcode? = some opcode ∧
      ((i.expression.mode = .relative ∧ ∃ d, p.branchByte i = .ok d ∧ bytes = [opcode, d]) ∨
        (i.expression.mode ≠ .relative ∧
          bytes = opcode :: operandBytes i.expression.mode i.expression.operand)) := by
  unfold emit
  rcases hop : i.expression.opcode? with - | opcode
  · simp
  · by_cases hmode : i.expression.mode = .relative
    · rcases hd : p.branchByte i with cause | d <;> simp [hmode, eq_comm]
    · have hbeq : (i.expression.mode == .relative) = false := by simpa using hmode
      simp only [hbeq, Bool.false_eq_true, if_false, Except.ok.injEq]
      constructor
      · rintro rfl
        exact ⟨opcode, rfl, .inr ⟨hmode, rfl⟩⟩
      · rintro ⟨opcode', hop', ⟨hrel, -⟩ | ⟨-, rfl⟩⟩
        · exact absurd hrel hmode
        · cases hop'
          rfl

/-- Only a branch fault stops the emission of an encodable expression. -/
theorem emit_eq_error_iff (henc : i.expression.Encodable) {e : EmitError} :
    p.emit i = .error e ↔ ∃ cause, BranchFault p i cause ∧ e = .symbol cause := by
  obtain ⟨opcode, hop⟩ := henc.opcode
  simp only [← branchByte_eq_error_iff]
  unfold emit
  by_cases hmode : i.expression.mode = .relative
  · rcases hd : p.branchByte i with cause | d <;> simp [hop, hmode, eq_comm]
  · simp [hop, hmode]

theorem length_emit {bytes : Bytes} (h : p.emit i = .ok bytes) :
    bytes.length = i.expression.size := by
  obtain ⟨opcode, -, ⟨hmode, d, -, rfl⟩ | ⟨-, rfl⟩⟩ := emit_eq_ok_iff.mp h
  · rw [Expression.size, hmode]
    rfl
  · simp [Expression.size, Mode.size]

/-! ### Bytes of the section -/

/-- Emission stops at the first branch fault, and only there. -/
theorem rawBytes_eq_error_iff (hp : p.WellFormed) {e : EmitError} :
    p.rawBytes = .error e ↔ ∃ before i after cause, p.code.toList = before ++ i :: after ∧
      (∀ j ∈ before, ∀ c, ¬ BranchFault p j c) ∧ BranchFault p i cause ∧ e = .symbol cause := by
  have hraw : p.rawBytes = .error e ↔ p.code.toList.mapM p.emit = .error e := by
    unfold rawBytes
    rw [bind_eq_error_iff]
    constructor
    · rintro (h | ⟨_, _, h⟩)
      · exact h
      · cases h
    · exact .inl
  -- an encodable expression is emitted unless it is a branch fault
  have hok : ∀ j ∈ p.code.toList, (∃ bytes, p.emit j = .ok bytes) ↔ ∀ c, ¬ BranchFault p j c := by
    intro j hj
    have herr := fun e => emit_eq_error_iff (p := p) (hp.encodable j hj) (e := e)
    rcases hemit : p.emit j with e | bytes
    · obtain ⟨c, hc, -⟩ := (herr e).mp hemit
      simp only [reduceCtorEq, exists_false, false_iff]
      intro h
      exact h c hc
    · simp only [Except.ok.injEq, exists_eq', true_iff]
      intro c hc
      have := (herr (.symbol c)).mpr ⟨c, hc, rfl⟩
      rw [hemit] at this
      cases this
  rw [hraw, mapM_eq_error_iff]
  constructor
  · rintro ⟨before, i, after, hcode, hbefore, hi⟩
    have hmem : ∀ j ∈ before ++ i :: after, j ∈ p.code.toList := fun j hj => hcode ▸ hj
    obtain ⟨cause, hfault, rfl⟩ :=
      (emit_eq_error_iff (hp.encodable i (hmem i (by simp)))).mp hi
    exact ⟨before, i, after, cause, hcode,
      fun j hj => (hok j (hmem j (by simp [hj]))).mp (hbefore j hj), hfault, rfl⟩
  · rintro ⟨before, i, after, cause, hcode, hbefore, hfault, rfl⟩
    have hmem : ∀ j ∈ before ++ i :: after, j ∈ p.code.toList := fun j hj => hcode ▸ hj
    exact ⟨before, i, after, hcode,
      fun j hj => (hok j (hmem j (by simp [hj]))).mpr (hbefore j hj),
      (emit_eq_error_iff (hp.encodable i (hmem i (by simp)))).mpr ⟨cause, hfault, rfl⟩⟩

theorem rawBytes_eq_ok_iff {raw : Bytes} :
    p.rawBytes = .ok raw ↔ ∃ parts, List.Forall₂ (fun i bytes => p.emit i = .ok bytes)
      p.code.toList parts ∧ raw = parts.flatten := by
  unfold rawBytes
  rw [bind_eq_ok_iff]
  simp only [mapM_eq_ok_iff]
  constructor
  · rintro ⟨parts, hparts, h⟩
    cases h
    exact ⟨parts, hparts, rfl⟩
  · rintro ⟨parts, hparts, rfl⟩
    exact ⟨parts, hparts, rfl⟩

/-- The emitted bytes fill the section. -/
theorem length_rawBytes (hp : p.WellFormed) {raw : Bytes} (h : p.rawBytes = .ok raw) :
    raw.length = p.size := by
  obtain ⟨parts, hparts, rfl⟩ := rawBytes_eq_ok_iff.mp h
  have := (hp.laidOut.segments length_emit hparts).1
  omega

/-- Every expression's bytes stand at its address. -/
theorem rawBytes_segment (hp : p.WellFormed) {raw : Bytes} (h : p.rawBytes = .ok raw)
    (hi : i ∈ p.code.toList) :
    ∃ bytes, p.emit i = .ok bytes ∧ bytes <+: raw.drop i.address := by
  obtain ⟨parts, hparts, rfl⟩ := rawBytes_eq_ok_iff.mp h
  obtain ⟨bytes, hemit, hpre⟩ := (hp.laidOut.segments length_emit hparts).2 i hi
  exact ⟨bytes, hemit, hpre⟩

end Program

/-! ### Relocations -/

/-- Whether a value refers to a symbol. -/
def Value.isLabel : Value → Bool
  | .label _ => true
  | _ => false

/-- A relocation that stands for the label operand of an expression. -/
structure Relocation.Records (i : Placed) (r : Relocation) : Prop where
  symbol : i.expression.operand = .label r.symbol
  /-- The offset is that of the first operand byte, and has not wrapped. -/
  offset : r.offset.toNat = i.address + 1
  kind : r.kind = .ofMode i.expression.mode
  width : r.kind.width = i.expression.mode.operandLength

/-- An offset in the slot that a relocation patches. -/
def Relocation.Covers (r : Relocation) (k : Nat) : Prop :=
  r.offset.toNat ≤ k ∧ k < r.offset.toNat + r.kind.width

theorem RelocationKind.width_pos (kind : RelocationKind) : 0 < kind.width := by
  cases kind <;> simp [RelocationKind.width]

theorem RelocationKind.width_ofMode {mode : Mode} (h : mode.operandLength ≠ 0) :
    (RelocationKind.ofMode mode).width = mode.operandLength := by
  cases mode <;> first | rfl | exact absurd rfl h

theorem RelocationKind.ofMode_eq_relative_iff {mode : Mode} :
    RelocationKind.ofMode mode = .relative ↔ mode = .relative := by
  cases mode <;> decide

namespace Relocation.Records

variable {i j : Placed} {r : Relocation}

theorem slot_end (h : Records i r) :
    r.offset.toNat + r.kind.width = i.address + i.expression.size := by
  rw [h.offset, h.width, Expression.size, Mode.size]
  omega

/-- The slot is the operand of its own expression, so it covers the opcode of
none. -/
theorem not_covers_address {a z : Nat} {code : List Placed} (h : Records i r)
    (hcode : LaidOut a code z) (hi : i ∈ code) (hj : j ∈ code) : ¬ r.Covers j.address := by
  rintro ⟨hlow, hhigh⟩
  rw [h.slot_end] at hhigh
  rw [h.offset] at hlow
  rcases hcode.eq_or_disjoint hi hj with rfl | hdisj | hdisj
  · omega
  · omega
  · have : j.expression.size ≠ 0 := by simp [Expression.size, Mode.size]
    omega

end Relocation.Records

namespace Program

variable {p : Program} {i : Placed}

/-- A label operand has a relocation that stands for it. -/
theorem relocation?_records (hp : p.WellFormed) (hi : i ∈ p.code.toList) {r : Relocation}
    (h : relocation? i = some r) : r.Records i := by
  unfold relocation? at h
  split at h
  · next name hname =>
    cases h
    have hlen : i.expression.mode.operandLength ≠ 0 := by
      have hfits := (hp.encodable i hi).fits
      rw [hname] at hfits
      exact hfits
    have hend := (hp.laidOut.bounds hi).2
    have hsize := hp.size_le
    refine ⟨hname, ?_, rfl, RelocationKind.width_ofMode hlen⟩
    -- the operand ends inside the address space, so its first byte has an address
    rw [Expression.size, Mode.size] at hend
    rw [addressSpace] at hsize
    show (i.address + 1).toUInt16.toNat = i.address + 1
    rw [Nat.toUInt16, UInt16.toNat_ofNat']
    omega
  · cases h

theorem relocation?_eq_none_iff : relocation? i = none ↔ i.expression.operand.isLabel = false := by
  unfold relocation? Value.isLabel
  rcases i.expression.operand with - | n | name | n <;> simp

/-- **The relocations are the label operands, one by one and in order.** -/
theorem forall₂_relocations (hp : p.WellFormed) :
    List.Forall₂ Relocation.Records
      (p.code.toList.filter fun i => i.expression.operand.isLabel) p.relocations := by
  have hcode : ∀ i ∈ p.code.toList, ∀ r, relocation? i = some r → r.Records i :=
    fun i hi r hr => relocation?_records hp hi hr
  unfold relocations
  generalize p.code.toList = code at hcode
  induction code with
  | nil => exact .nil
  | cons i rest ih =>
    have hrest := ih fun j hj => hcode j (List.mem_cons_of_mem _ hj)
    rcases hr : relocation? i with - | r
    · rw [List.filterMap_cons_none hr, List.filter_cons_of_neg]
      · exact hrest
      · rw [relocation?_eq_none_iff.mp hr]
        decide
    · rw [List.filterMap_cons_some hr, List.filter_cons_of_pos]
      · exact .cons (hcode i (by simp) r hr) hrest
      · by_contra hlabel
        rw [relocation?_eq_none_iff.mpr (by simpa using hlabel)] at hr
        cases hr

/-- Every relocation stands for the label operand of some expression. -/
theorem exists_records (hp : p.WellFormed) {r : Relocation} (hr : r ∈ p.relocations) :
    ∃ i ∈ p.code.toList, r.Records i := by
  obtain ⟨i, hi, hri⟩ := List.mem_filterMap.mp hr
  exact ⟨i, hi, relocation?_records hp hi hri⟩

/-- Each slot ends before the next ones begin. -/
theorem relocations_pairwise (hp : p.WellFormed) :
    p.relocations.Pairwise fun r r' => r.offset.toNat + r.kind.width ≤ r'.offset.toNat := by
  rw [relocations, List.pairwise_filterMap]
  refine hp.laidOut.pairwise.imp_of_mem ?_
  intro i j hi hj hij r hr r' hr'
  have hri := relocation?_records hp hi hr
  have hrj := relocation?_records hp hj hr'
  rw [hri.slot_end, hrj.offset]
  omega

/-! ### Slots -/

/-- The operand bytes of an emitted expression, by their offset in the
section. -/
theorem rawBytes_operand (hp : p.WellFormed) {raw : Bytes} (h : p.rawBytes = .ok raw)
    (hi : i ∈ p.code.toList) :
    ∃ opcode operand, i.expression.opcode? = some opcode ∧ p.emit i = .ok (opcode :: operand) ∧
      raw[i.address]? = some opcode ∧
      ∀ k < i.expression.mode.operandLength, raw[i.address + 1 + k]? = operand[k]? := by
  obtain ⟨bytes, hemit, hpre⟩ := rawBytes_segment hp h hi
  have hlen := length_emit hemit
  rw [Expression.size, Mode.size] at hlen
  obtain ⟨opcode, hop, hbytes⟩ := emit_eq_ok_iff.mp hemit
  obtain ⟨operand, rfl⟩ : ∃ operand, bytes = opcode :: operand := by
    rcases hbytes with ⟨-, d, -, rfl⟩ | ⟨-, rfl⟩ <;> exact ⟨_, rfl⟩
  refine ⟨opcode, operand, hop, hemit, ?_, ?_⟩
  · exact getElem?_of_prefix_drop (k := 0) hpre (by simp)
  · intro k hk
    rw [Nat.add_assoc, Nat.add_comm 1 k]
    exact getElem?_of_prefix_drop (k := k + 1) hpre (by omega)

/-- The slot of a relocation that is no branch holds placeholders. -/
theorem rawBytes_placeholder (hp : p.WellFormed) {raw : Bytes} (h : p.rawBytes = .ok raw)
    (hi : i ∈ p.code.toList) {r : Relocation} (hr : r.Records i) (hkind : r.kind ≠ .relative)
    {k : Nat} (hk : r.Covers k) : raw[k]? = some placeholder := by
  obtain ⟨opcode, operand, hop, hemit, -, hraw⟩ := rawBytes_operand hp h hi
  have hmode : i.expression.mode ≠ .relative := by
    rw [hr.kind] at hkind
    exact fun hmode => hkind (RelocationKind.ofMode_eq_relative_iff.mpr hmode)
  have hoperand : operand = List.replicate i.expression.mode.operandLength placeholder := by
    obtain ⟨_, -, ⟨hrel, -⟩ | ⟨-, hbytes⟩⟩ := emit_eq_ok_iff.mp hemit
    · exact absurd hrel hmode
    · rw [hr.symbol, operandBytes_label] at hbytes
      exact (List.cons.inj hbytes).2
  obtain ⟨hlow, hhigh⟩ := hk
  rw [hr.offset] at hlow hhigh
  rw [hr.width] at hhigh
  have hk' : i.address + 1 + (k - (i.address + 1)) = k := by omega
  have hraw' := hraw (k - (i.address + 1)) (by omega)
  rw [hk', hoperand, List.getElem?_replicate, if_pos (by omega)] at hraw'
  exact hraw'

/-- The slot of a branch to a label holds its displacement. -/
theorem rawBytes_branch (hp : p.WellFormed) {raw : Bytes} (h : p.rawBytes = .ok raw)
    (hi : i ∈ p.code.toList) {r : Relocation} (hr : r.Records i) (hkind : r.kind = .relative) :
    ∃ s d, p.symbol? r.symbol = some s ∧ displacement s.address i.address = .ok d ∧
      raw[r.offset.toNat]? = some d := by
  obtain ⟨opcode, operand, hop, hemit, -, hraw⟩ := rawBytes_operand hp h hi
  have hmode : i.expression.mode = .relative := by
    rw [hr.kind] at hkind
    exact RelocationKind.ofMode_eq_relative_iff.mp hkind
  obtain ⟨_, -, ⟨-, d, hd, hbytes⟩ | ⟨hrel, -⟩⟩ := emit_eq_ok_iff.mp hemit
  · obtain ⟨s, hs, hdisp⟩ := branchByte_label hr.symbol hd
    obtain ⟨-, rfl⟩ := List.cons.inj hbytes
    refine ⟨s, d, hs, hdisp, ?_⟩
    rw [hr.offset]
    exact hraw 0 (by rw [hmode]; decide)
  · exact absurd hmode hrel

end Program

/-! ### The section as a whole -/

/-- Bytes, relocations and addresses of a program agree. -/
structure Program.SectionConsistent (p : Program) : Prop where
  /-- Emission fails exactly if some branch to a label is at fault. -/
  fails_iff : (∃ e, p.rawBytes = .error e) ↔
    ∃ i ∈ p.code.toList, ∃ cause, BranchFault p i cause
  /-- The error is that of the first such branch. -/
  fails_first : ∀ e, p.rawBytes = .error e → ∃ before i after cause,
    p.code.toList = before ++ i :: after ∧ (∀ j ∈ before, ∀ c, ¬ BranchFault p j c) ∧
      BranchFault p i cause ∧ e = .symbol cause
  /-- Emitted bytes fill the section, and every expression's opcode stands at
  its address. -/
  fills : ∀ raw, p.rawBytes = .ok raw → raw.length = p.size ∧ ∀ i ∈ p.code.toList,
    ∃ opcode, i.expression.opcode? = some opcode ∧ raw[i.address]? = some opcode
  /-- There is one relocation for each label operand, in order. -/
  records : List.Forall₂ Relocation.Records
    (p.code.toList.filter fun i => i.expression.operand.isLabel) p.relocations
  increasing : p.relocations.Pairwise fun r r' => r.offset.toNat < r'.offset.toNat
  disjoint : p.relocations.Pairwise fun r r' => ∀ k, ¬ (r.Covers k ∧ r'.Covers k)
  inside : ∀ r ∈ p.relocations, ∀ k, r.Covers k → 1 ≤ k ∧ k < p.size
  /-- No slot covers an opcode. -/
  no_opcode : ∀ r ∈ p.relocations, ∀ i ∈ p.code.toList, ¬ r.Covers i.address
  /-- The slot of a relocation that is no branch holds placeholders. -/
  placeholders : ∀ raw, p.rawBytes = .ok raw → ∀ r ∈ p.relocations, r.kind ≠ .relative →
    ∀ k, r.Covers k → raw[k]? = some 0xFF
  /-- The slot of a branch holds the distance from the byte after it. -/
  branches : ∀ raw, p.rawBytes = .ok raw → ∀ r ∈ p.relocations, r.kind = .relative →
    ∃ s, p.symbol? r.symbol = some s ∧
      raw[r.offset.toNat]? =
        some (Mos6502.branchByte ((s.address : Int) - (r.offset.toNat : Int) - 1))

/-- **Every built program has a consistent section.** -/
theorem build_sectionConsistent {nodes : List Node} {p : Program} (h : build nodes = .ok p) :
    p.SectionConsistent := by
  have hp := build_wellFormed h
  refine ⟨?_, ?_, ?_, p.forall₂_relocations hp, ?_, ?_, ?_, ?_, ?_, ?_⟩
  · -- the first fault is found from any fault
    constructor
    · rintro ⟨e, he⟩
      obtain ⟨before, i, after, cause, hcode, -, hfault, -⟩ :=
        (Program.rawBytes_eq_error_iff hp).mp he
      exact ⟨i, by simp [hcode], cause, hfault⟩
    · rintro ⟨i, hi, cause, hfault⟩
      rcases hraw : p.rawBytes with e | raw
      · exact ⟨e, rfl⟩
      · obtain ⟨bytes, hemit, -⟩ := Program.rawBytes_segment hp hraw hi
        have herr := (Program.emit_eq_error_iff (hp.encodable i hi)).mpr ⟨cause, hfault, rfl⟩
        rw [hemit] at herr
        cases herr
  · intro e he
    exact (Program.rawBytes_eq_error_iff hp).mp he
  · intro raw hraw
    refine ⟨Program.length_rawBytes hp hraw, ?_⟩
    intro i hi
    obtain ⟨opcode, -, hop, -, hat, -⟩ := Program.rawBytes_operand hp hraw hi
    exact ⟨opcode, hop, hat⟩
  · refine (Program.relocations_pairwise hp).imp ?_
    intro r r' hle
    have := r.kind.width_pos
    omega
  · refine (Program.relocations_pairwise hp).imp ?_
    rintro r r' hle k ⟨⟨-, hr⟩, hr', -⟩
    omega
  · rintro r hr k ⟨hlow, hhigh⟩
    obtain ⟨i, hi, hri⟩ := Program.exists_records hp hr
    have hend := (hp.laidOut.bounds hi).2
    rw [hri.slot_end] at hhigh
    rw [hri.offset] at hlow
    omega
  · intro r hr j hj
    obtain ⟨i, hi, hri⟩ := Program.exists_records hp hr
    exact hri.not_covers_address hp.laidOut hi hj
  · intro raw hraw r hr hkind k hk
    obtain ⟨i, hi, hri⟩ := Program.exists_records hp hr
    exact Program.rawBytes_placeholder hp hraw hi hri hkind hk
  · intro raw hraw r hr hkind
    obtain ⟨i, hi, hri⟩ := Program.exists_records hp hr
    obtain ⟨s, d, hs, hdisp, hat⟩ := Program.rawBytes_branch hp hraw hi hri hkind
    obtain ⟨-, rfl⟩ := displacement_eq_ok_iff.mp hdisp
    have hdist : (s.address : Int) - (i.address + 2) =
        (s.address : Int) - (r.offset.toNat : Int) - 1 := by
      rw [hri.offset]
      omega
    exact ⟨s, hs, by rw [hat, hdist]⟩

/-- A branch over a jump to a label that follows the last instruction, and an
immediate operand that is declared nowhere. -/
theorem build_sectionConsistent_trailingLabel :
    ∃ p, build
      [.label 1 [ascii "start"],
       .instruction 2 [] (ascii "BNE") (some ⟨.bare, ascii "done", 0, ascii "done"⟩),
       .instruction 3 [] (ascii "JMP") (some ⟨.bare, ascii "start", 0, ascii "start"⟩),
       .instruction 4 [] (ascii "LDA") (some ⟨.immediate, ascii "port", 0, ascii "#port"⟩),
       .label 5 [ascii "done"], .finish 6] = .ok p ∧
      p.rawBytes = .ok [0xD0, 0x05, 0x4C, 0xFF, 0xFF, 0xA9, 0xFF] ∧ p.SectionConsistent := by
  have h : build
      [.label 1 [ascii "start"],
       .instruction 2 [] (ascii "BNE") (some ⟨.bare, ascii "done", 0, ascii "done"⟩),
       .instruction 3 [] (ascii "JMP") (some ⟨.bare, ascii "start", 0, ascii "start"⟩),
       .instruction 4 [] (ascii "LDA") (some ⟨.immediate, ascii "port", 0, ascii "#port"⟩),
       .label 5 [ascii "done"], .finish 6] =
      .ok ⟨#[⟨0, .bne, .relative, .label (ascii "done"), 2⟩,
        ⟨2, .jmp, .absolute, .label (ascii "start"), 3⟩,
        ⟨5, .lda, .immediate, .label (ascii "port"), 4⟩],
        #[⟨ascii "start", 0, some 0, 1⟩, ⟨ascii "done", 7, none, 5⟩], 7⟩ := by
    decide +kernel
  exact ⟨_, h, by decide +kernel, build_sectionConsistent h⟩

end Mos6502
