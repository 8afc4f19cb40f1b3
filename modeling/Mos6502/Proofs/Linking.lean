/-
Mos6502/Proofs/Linking.lean

Linking a section that nothing is known of.  Its bytes, relocations and
symbols may be anything: offsets may lie outside, slots may overlap, and kinds
may be unknown.

What a relocation needs is said of it alone (`Relocation.Valid`): its symbol
has a value (`Denotes`), its kind is known, its slot lies inside the section,
and the value fits the slot.  One that lacks something is refused for the
first thing that it lacks, in the order in which the linker looks
(`Relocation.Refused`).  Neither speaks of the bytes of the image, so an
earlier relocation never makes a later one valid or invalid.

* `patchOf_eq_ok_iff_valid`, `patchOf_eq_error_iff` — both are exact;
* `Section.writesInside` — every byte that is written lies inside the image;
* `Section.eq_of_patched` — an image is known from its length, the bytes that
  no slot covers, and for every other byte the last relocation that covers it.

`link_any_section` puts them together.
-/
import Mos6502.Proofs.Patching

namespace Mos6502

/-! ### Values of names -/

/-- What a name is worth at an origin.  A symbol of the section counts from
the origin, modulo the address space, and hides an extern of its name. -/
inductive Denotes (origin : UInt16) (symbols externs : SymbolMap) (name : Bytes) : UInt16 → Prop
  | declared {offset : UInt16} :
      symbols.lookup name = some offset → Denotes origin symbols externs name (origin + offset)
  | supplied {value : UInt16} :
      symbols.lookup name = none → externs.lookup name = some value →
      Denotes origin symbols externs name value

variable {origin : UInt16} {symbols externs : SymbolMap}

theorem resolve?_eq_some_iff {name : Bytes} {value : UInt16} :
    resolve? origin symbols externs name = some value ↔
      Denotes origin symbols externs name value := by
  rcases hname : symbols.lookup name with - | offset
  · simp only [resolve?, hname]
    constructor
    · intro h
      exact .supplied hname h
    · rintro (h | ⟨-, h⟩)
      · rw [hname] at h
        cases h
      · exact h
  · simp only [resolve?, hname, Option.some.injEq]
    constructor
    · rintro rfl
      exact .declared hname
    · rintro (h | ⟨h, -⟩)
      · rw [hname] at h
        cases h
        rfl
      · rw [hname] at h
        cases h

theorem resolve?_eq_none_iff {name : Bytes} :
    resolve? origin symbols externs name = none ↔
      symbols.lookup name = none ∧ externs.lookup name = none := by
  rcases hname : symbols.lookup name with - | offset <;> simp [resolve?, hname]

theorem Denotes.unique {name : Bytes} {value value' : UInt16}
    (h : Denotes origin symbols externs name value)
    (h' : Denotes origin symbols externs name value') : value = value' := by
  have heq := (resolve?_eq_some_iff.mpr h).symm.trans (resolve?_eq_some_iff.mpr h')
  exact Option.some.inj heq

/-! ### What one relocation needs -/

namespace Relocation

/-- The distance of a branch: from the byte behind its slot to the value. -/
def distance (origin value : UInt16) (r : Relocation) : Int :=
  (value.toNat : Int) - ((origin.toNat : Int) + r.offset.toNat + 1)

/-- The bytes of a slot that is worth a value. -/
def slotBytes (origin value : UInt16) (r : Relocation) : Bytes :=
  match r.kind with
  | .short => [Word.lo value]
  | .long | .absolute => [Word.lo value, Word.hi value]
  | .relative => [Mos6502.branchByte (r.distance origin value)]
  | .unknown _ => []

/-- A relocation that can be applied to a section of a given length, with the
value that its symbol has. -/
structure Valid (origin : UInt16) (symbols externs : SymbolMap) (length : Nat) (r : Relocation)
    (value : UInt16) : Prop where
  denotes : Denotes origin symbols externs r.symbol value
  known : ∀ number, r.kind ≠ .unknown number
  inside : r.offset.toNat + r.kind.width ≤ length
  fits : r.kind = .short → value.toNat ≤ 0xFF
  reaches : r.kind = .relative →
    -128 ≤ r.distance origin value ∧ r.distance origin value ≤ 127

/-- Why a relocation cannot be applied.  A slot outside the section is found
before the kind is looked at, and both before the value. -/
inductive Refused (origin : UInt16) (symbols externs : SymbolMap) (length : Nat)
    (r : Relocation) : LinkError → Prop
  | undefined : symbols.lookup r.symbol = none → externs.lookup r.symbol = none →
      Refused origin symbols externs length r (.symbol (undefinedSymbol r))
  | outside {value : UInt16} : Denotes origin symbols externs r.symbol value →
      length < r.offset.toNat + r.kind.width →
      Refused origin symbols externs length r (.outside r length)
  | unknown {value : UInt16} {number : Int} : Denotes origin symbols externs r.symbol value →
      r.offset.toNat + r.kind.width ≤ length → r.kind = .unknown number →
      Refused origin symbols externs length r (.unknownKind number)
  | tooLarge {value : UInt16} : Denotes origin symbols externs r.symbol value →
      r.offset.toNat + r.kind.width ≤ length → r.kind = .short → 0xFF < value.toNat →
      Refused origin symbols externs length r (.symbol (doesNotFit r value))
  | tooFar {value : UInt16} : Denotes origin symbols externs r.symbol value →
      r.offset.toNat + r.kind.width ≤ length → r.kind = .relative →
      ¬ (-128 ≤ r.distance origin value ∧ r.distance origin value ≤ 127) →
      Refused origin symbols externs length r
        (.symbol (doesNotReach r (r.distance origin value)))

end Relocation

section One

variable {r : Relocation} {value : UInt16} {bytes : Bytes} {e : LinkError} {length : Nat}

/-- The patch of a branch is its distance, if that is in reach. -/
theorem patchBytes_branch (hkind : r.kind = .relative) (origin value : UInt16) :
    patchBytes origin r value =
      if -128 ≤ r.distance origin value ∧ r.distance origin value ≤ 127 then
        .ok [branchByte (r.distance origin value)]
      else .error (.symbol (doesNotReach r (r.distance origin value))) := by
  simp only [patchBytes, hkind]
  by_cases hfits : -128 ≤ r.distance origin value ∧ r.distance origin value ≤ 127
  · rw [if_pos hfits]
    exact if_pos (fitsBranch_iff.mpr hfits)
  · rw [if_neg hfits]
    exact if_neg fun h => hfits (fitsBranch_iff.mp h)

theorem patchBytes_eq_ok_iff :
    patchBytes origin r value = .ok bytes ↔
      ((∀ number, r.kind ≠ .unknown number) ∧ (r.kind = .short → value.toNat ≤ 0xFF) ∧
        (r.kind = .relative →
          -128 ≤ r.distance origin value ∧ r.distance origin value ≤ 127)) ∧
        bytes = r.slotBytes origin value := by
  have hshort : value ≤ 0xFF ↔ value.toNat ≤ 0xFF := UInt16.le_iff_toNat_le
  by_cases hrel : r.kind = .relative
  · rw [patchBytes_branch hrel]
    by_cases hfits : -128 ≤ r.distance origin value ∧ r.distance origin value ≤ 127 <;>
      simp [Relocation.slotBytes, hrel, hfits, eq_comm]
  · rcases hkind : r.kind with - | - | - | - | number <;>
      simp only [patchBytes, Relocation.slotBytes, hkind]
    · by_cases hvalue : value.toNat ≤ 0xFF <;> simp [hshort, hvalue, eq_comm]
    · simp [Word.toBytes, eq_comm]
    · simp [Word.toBytes, eq_comm]
    · exact absurd hkind hrel
    · simp

/-- **A relocation has a patch exactly if it is valid**, and the patch is then
the slot worth its value. -/
theorem patchOf_eq_ok_iff_valid :
    patchOf origin symbols externs length r = .ok bytes ↔
      ∃ value, r.Valid origin symbols externs length value ∧
        bytes = r.slotBytes origin value := by
  rw [patchOf_eq_ok_iff]
  constructor
  · rintro ⟨value, hvalue, hinside, hbytes⟩
    obtain ⟨⟨hknown, hfits, hreaches⟩, rfl⟩ := patchBytes_eq_ok_iff.mp hbytes
    exact ⟨value, ⟨resolve?_eq_some_iff.mp hvalue, hknown, hinside, hfits, hreaches⟩, rfl⟩
  · rintro ⟨value, hvalid, rfl⟩
    exact ⟨value, resolve?_eq_some_iff.mpr hvalid.denotes, hvalid.inside,
      patchBytes_eq_ok_iff.mpr ⟨⟨hvalid.known, hvalid.fits, hvalid.reaches⟩, rfl⟩⟩

theorem exists_patchOf_iff :
    (∃ bytes, patchOf origin symbols externs length r = .ok bytes) ↔
      ∃ value, r.Valid origin symbols externs length value := by
  simp only [patchOf_eq_ok_iff_valid]
  constructor
  · rintro ⟨_, value, hvalid, -⟩
    exact ⟨value, hvalid⟩
  · rintro ⟨value, hvalid⟩
    exact ⟨_, value, hvalid, rfl⟩

/-- **A relocation has no patch exactly if it is refused**, and for that
reason. -/
theorem patchOf_eq_error_iff :
    patchOf origin symbols externs length r = .error e ↔
      r.Refused origin symbols externs length e := by
  have hshort : ∀ value : UInt16, value ≤ 0xFF ↔ value.toNat ≤ 0xFF := fun value =>
    UInt16.le_iff_toNat_le
  constructor
  · intro h
    unfold patchOf at h
    split at h
    · next hnone =>
      cases h
      exact .undefined (resolve?_eq_none_iff.mp hnone).1 (resolve?_eq_none_iff.mp hnone).2
    · next value hsome =>
      have hdenotes := resolve?_eq_some_iff.mp hsome
      split at h
      · next houtside =>
        cases h
        exact .outside hdenotes houtside
      · next hinside =>
        -- the slot is inside, so the kind and the value are at fault
        have hinside := Nat.le_of_not_lt hinside
        by_cases hrel : r.kind = .relative
        · rw [patchBytes_branch hrel] at h
          split at h
          · cases h
          · next hfar =>
            cases h
            exact .tooFar hdenotes hinside hrel hfar
        · rcases hkind : r.kind with - | - | - | - | number <;>
            simp only [patchBytes, hkind, hshort] at h
          · split at h
            · cases h
            · next hlarge =>
              cases h
              exact .tooLarge hdenotes hinside hkind (Nat.lt_of_not_le hlarge)
          · cases h
          · cases h
          · exact absurd hkind hrel
          · cases h
            exact .unknown hdenotes hinside hkind
  · intro h
    -- past the first check the symbol has the value that it denotes
    have hpatch : ∀ {value}, Denotes origin symbols externs r.symbol value →
        r.offset.toNat + r.kind.width ≤ length →
        patchOf origin symbols externs length r = patchBytes origin r value := by
      intro value hdenotes hinside
      simp only [patchOf, resolve?_eq_some_iff.mpr hdenotes]
      exact if_neg (Nat.not_lt.mpr hinside)
    cases h with
    | undefined hsymbol hextern =>
      simp only [patchOf, resolve?_eq_none_iff.mpr ⟨hsymbol, hextern⟩]
    | outside hdenotes houtside =>
      simp only [patchOf, resolve?_eq_some_iff.mpr hdenotes]
      exact if_pos houtside
    | unknown hdenotes hinside hkind =>
      rw [hpatch hdenotes hinside]
      simp only [patchBytes, hkind]
    | tooLarge hdenotes hinside hkind hlarge =>
      rw [hpatch hdenotes hinside]
      simp only [patchBytes, hkind, hshort]
      exact if_neg (Nat.not_le.mpr hlarge)
    | tooFar hdenotes hinside hkind hfar =>
      rw [hpatch hdenotes hinside, patchBytes_branch hkind, if_neg hfar]

/-- A relocation is either valid or refused. -/
theorem Relocation.exists_refused_iff (r : Relocation) :
    (∃ e, r.Refused origin symbols externs length e) ↔
      ∀ value, ¬ r.Valid origin symbols externs length value := by
  constructor
  · rintro ⟨e, he⟩ value hvalid
    rw [← patchOf_eq_error_iff, patchOf_eq_ok_iff_valid.mpr ⟨value, hvalid, rfl⟩] at he
    cases he
  · intro hinvalid
    rcases h : patchOf origin symbols externs length r with e | bytes
    · exact ⟨e, patchOf_eq_error_iff.mp h⟩
    · obtain ⟨value, hvalid, -⟩ := patchOf_eq_ok_iff_valid.mp h
      exact absurd hvalid (hinvalid value)

end One

/-! ### Writing inside the image -/

/-- Writes bytes one after the other, and gives up at the first that would
fall outside. -/
def store? (image : Array UInt8) (offset : Nat) : Bytes → Option (Array UInt8)
  | [] => some image
  | b :: rest =>
    if offset < image.size then store? (image.setIfInBounds offset b) (offset + 1) rest else none

/-- Bytes that have room are all written. -/
theorem store?_eq_overwrite {image : Array UInt8} {offset : Nat} {bytes : Bytes}
    (h : offset + bytes.length ≤ image.size) :
    store? image offset bytes = some (overwrite image offset bytes) := by
  induction bytes generalizing image offset with
  | nil => rfl
  | cons b rest ih =>
    rw [List.length_cons] at h
    rw [store?, if_pos (by omega), overwrite]
    apply ih
    rw [Array.size_setIfInBounds]
    omega

namespace Section

variable {s : Section} {image : Bytes}

/-- No relocation that is reached, in a pass that succeeds or in one that
fails later, writes a byte outside the image. -/
def WritesInside (s : Section) (origin : UInt16) (externs : SymbolMap) : Prop :=
  ∀ before r after image image', s.relocations = before ++ r :: after →
    before.foldlM (applyRelocation origin s.symbols externs) s.raw.toArray = .ok image →
    applyRelocation origin s.symbols externs image r = .ok image' →
      ∃ value, Denotes origin s.symbols externs r.symbol value ∧
        store? image r.offset.toNat (r.slotBytes origin value) = some image'

theorem writesInside (s : Section) (origin : UInt16) (externs : SymbolMap) :
    s.WritesInside origin externs := by
  intro before r after image image' hrs hbefore hstep
  obtain ⟨bytes, hpatch, rfl⟩ := applyRelocation_eq_ok_iff.mp hstep
  obtain ⟨hlen, hinside⟩ := patchOf_fits hpatch
  obtain ⟨value, hvalid, rfl⟩ := patchOf_eq_ok_iff_valid.mp hpatch
  refine ⟨value, hvalid.denotes, store?_eq_overwrite ?_⟩
  rw [hlen]
  exact hinside

/-! ### Images -/

/-- A relocation that covers an offset, and behind it none that does. -/
def LastCovers (s : Section) (r : Relocation) (k : Nat) : Prop :=
  ∃ before after, s.relocations = before ++ r :: after ∧ r.Covers k ∧
    ∀ r' ∈ after, ¬ r'.Covers k

/-- A covered offset is covered last by some relocation. -/
theorem exists_lastCovers {k : Nat} (h : ∃ r ∈ s.relocations, r.Covers k) :
    ∃ r, s.LastCovers r k := by
  unfold LastCovers
  generalize s.relocations = rs at h
  induction rs using List.reverseRecOn with
  | nil => simp at h
  | append_singleton init x ih =>
    by_cases hx : x.Covers k
    · exact ⟨x, init, [], rfl, hx, by simp⟩
    · -- the last relocation does not count, so one before it does
      have hinit : ∃ r ∈ init, r.Covers k := by
        obtain ⟨r, hr, hk⟩ := h
        rcases List.mem_append.mp hr with hr | hr
        · exact ⟨r, hr, hk⟩
        · rw [List.mem_singleton.mp hr] at hk
          exact absurd hk hx
      obtain ⟨r, before, after, rfl, hr, hafter⟩ := ih hinit
      refine ⟨r, before, after ++ [x], by simp, hr, ?_⟩
      intro r' hr'
      rcases List.mem_append.mp hr' with hr' | hr'
      · exact hafter r' hr'
      · rw [List.mem_singleton.mp hr']
        exact hx

/-- An image made from a section by its relocations, byte by byte. -/
structure Patched (s : Section) (origin : UInt16) (externs : SymbolMap) (image : Bytes) :
    Prop where
  length : image.length = s.raw.length
  /-- A byte that no slot covers is that of the section. -/
  frame : ∀ k, (∀ r ∈ s.relocations, ¬ r.Covers k) → image[k]? = s.raw[k]?
  /-- A covered byte is the one that the last relocation writes. -/
  last : ∀ r k, s.LastCovers r k → ∃ value byte, Denotes origin s.symbols externs r.symbol value ∧
    (r.slotBytes origin value)[k - r.offset.toNat]? = some byte ∧ image[k]? = some byte

theorem patched_of_link (h : link s origin externs = .ok image) : s.Patched origin externs image := by
  obtain ⟨-, out, hout, rfl⟩ := link_eq_ok_iff.mp h
  refine ⟨?_, ?_, ?_⟩
  · rw [Array.length_toList, applyAll_size hout, List.size_toArray]
  · intro k hk
    rw [Array.getElem?_toList, applyAll_frame hout hk, List.getElem?_toArray]
  · rintro r k ⟨before, after, hrs, hk, hafter⟩
    rw [hrs] at hout
    obtain ⟨bytes, hpatch, hbyte⟩ := applyAll_last hout hk hafter
    obtain ⟨hlen, -⟩ := patchOf_fits hpatch
    obtain ⟨value, hvalid, rfl⟩ := patchOf_eq_ok_iff_valid.mp hpatch
    -- the offset lies in the slot, so there is a byte
    have hlt : k - r.offset.toNat < (r.slotBytes origin value).length := by
      have hlow := hk.1
      have hhigh := hk.2
      omega
    refine ⟨value, _, hvalid.denotes, List.getElem?_eq_getElem hlt, ?_⟩
    rw [Array.getElem?_toList, hbyte, List.getElem?_eq_getElem hlt]

/-- **There is only one such image.** -/
theorem eq_of_patched {image' : Bytes} (h : s.Patched origin externs image)
    (h' : s.Patched origin externs image') : image = image' := by
  apply List.ext_getElem?
  intro k
  by_cases hk : ∃ r ∈ s.relocations, r.Covers k
  · obtain ⟨r, hr⟩ := exists_lastCovers hk
    obtain ⟨value, byte, hvalue, hbyte, himage⟩ := h.last r k hr
    obtain ⟨value', byte', hvalue', hbyte', himage'⟩ := h'.last r k hr
    cases hvalue.unique hvalue'
    rw [himage, himage', ← hbyte, ← hbyte']
  · have hfree : ∀ r ∈ s.relocations, ¬ r.Covers k := fun r hr hcovers => hk ⟨r, hr, hcovers⟩
    rw [h.frame k hfree, h'.frame k hfree]

end Section

/-- **Linking any section.**

* Every write, also before a failure, lies inside the image.
* Linking succeeds exactly if the section fits at the origin and each of its
  relocations is valid on its own.
* Otherwise it reports that the section does not fit, or the reason for which
  the first relocation that is not valid is refused.
* The linked image is the one patched image of the section. -/
theorem link_any_section (s : Section) (origin : UInt16) (externs : SymbolMap) :
    s.WritesInside origin externs ∧
    ((∃ image, link s origin externs = .ok image) ↔ origin.toNat + s.raw.length ≤ 0x10000 ∧
      ∀ r ∈ s.relocations, ∃ value, r.Valid origin s.symbols externs s.raw.length value) ∧
    (∀ e, link s origin externs = .error e ↔
      (0x10000 < origin.toNat + s.raw.length ∧ e = .overrun s.raw.length origin) ∨
      (origin.toNat + s.raw.length ≤ 0x10000 ∧ ∃ before r after,
        s.relocations = before ++ r :: after ∧
        (∀ r' ∈ before, ∃ value, r'.Valid origin s.symbols externs s.raw.length value) ∧
        (∀ value, ¬ r.Valid origin s.symbols externs s.raw.length value) ∧
        r.Refused origin s.symbols externs s.raw.length e)) ∧
    ∀ image, link s origin externs = .ok image →
      ∀ image', s.Patched origin externs image' ↔ image' = image := by
  refine ⟨s.writesInside origin externs, ?_, ?_, ?_⟩
  · have hrun : (∃ out, s.relocations.foldlM (applyRelocation origin s.symbols externs)
        s.raw.toArray = .ok out) ↔
          ∀ r ∈ s.relocations, ∃ value, r.Valid origin s.symbols externs s.raw.length value := by
      simp only [applyAll_ok_iff, List.size_toArray, exists_patchOf_iff]
    rw [← hrun]
    constructor
    · rintro ⟨image, h⟩
      obtain ⟨hfit, out, hout, -⟩ := link_eq_ok_iff.mp h
      exact ⟨hfit, out, hout⟩
    · rintro ⟨hfit, out, hout⟩
      exact ⟨_, link_eq_ok_iff.mpr ⟨hfit, out, hout, rfl⟩⟩
  · intro e
    rw [link_eq_error_iff]
    refine or_congr Iff.rfl (and_congr_right fun _ => ?_)
    simp only [applyAll_eq_error_iff, List.size_toArray, exists_patchOf_iff, patchOf_eq_error_iff]
    constructor
    · rintro ⟨before, r, after, hrs, hbefore, hr⟩
      exact ⟨before, r, after, hrs, hbefore, r.exists_refused_iff.mp ⟨e, hr⟩, hr⟩
    · rintro ⟨before, r, after, hrs, hbefore, -, hr⟩
      exact ⟨before, r, after, hrs, hbefore, hr⟩
  · intro image h image'
    have hpatched := Section.patched_of_link h
    exact ⟨fun h' => Section.eq_of_patched h' hpatched, fun h' => h' ▸ hpatched⟩

/-- Two words that overlap, a branch in the slot of the first, and an extern
hidden by a symbol. -/
theorem link_any_section_overlapping :
    ∃ s : Section, s = ⟨[0x10, 0x11, 0x12, 0x13, 0x14],
        [⟨ascii "a", 1, .long⟩, ⟨ascii "b", 2, .absolute⟩, ⟨ascii "a", 1, .relative⟩],
        [(ascii "a", 3)]⟩ ∧
      link s 0x0600 [(ascii "a", 9), (ascii "b", 0x1234)] = .ok [0x10, 0x01, 0x34, 0x12, 0x14] ∧
      (∀ r ∈ s.relocations, ∃ value,
        r.Valid 0x0600 s.symbols [(ascii "a", 9), (ascii "b", 0x1234)] 5 value) ∧
      s.Patched 0x0600 [(ascii "a", 9), (ascii "b", 0x1234)] [0x10, 0x01, 0x34, 0x12, 0x14] := by
  have hlink : link ⟨[0x10, 0x11, 0x12, 0x13, 0x14],
      [⟨ascii "a", 1, .long⟩, ⟨ascii "b", 2, .absolute⟩, ⟨ascii "a", 1, .relative⟩],
      [(ascii "a", 3)]⟩ 0x0600 [(ascii "a", 9), (ascii "b", 0x1234)] =
        .ok [0x10, 0x01, 0x34, 0x12, 0x14] := by
    decide +kernel
  obtain ⟨-, hvalid, -, hpatched⟩ := link_any_section ⟨[0x10, 0x11, 0x12, 0x13, 0x14],
    [⟨ascii "a", 1, .long⟩, ⟨ascii "b", 2, .absolute⟩, ⟨ascii "a", 1, .relative⟩],
    [(ascii "a", 3)]⟩ 0x0600 [(ascii "a", 9), (ascii "b", 0x1234)]
  exact ⟨_, rfl, hlink, (hvalid.mp ⟨_, hlink⟩).2, (hpatched _ hlink _).mpr rfl⟩

end Mos6502
