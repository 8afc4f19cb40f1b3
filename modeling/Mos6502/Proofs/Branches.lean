/-
Mos6502/Proofs/Branches.lean

Branches seen twice.  Emission computes a displacement from offsets in the
section, where nothing wraps; linking computes it again from addresses, where
a label is worth `origin + offset` modulo the address space.  The two agree as
long as the label has an address.

There is exactly one way for it to have none: the section ends at the top of
the address space and the label stands behind its last instruction.  Its
value then wraps to zero, and the distance that the linker computes is too
small by the size of the address space (`Program.PastTop`).

* `patchBytes_relative`, `patchBytes_pastTop` — the two cases;
* `build_link_branches` — what follows for linking;
* `link_branch_to_top` — the case in which linking refuses a branch that
  emission has accepted.
-/
import Mos6502.Proofs.Linking

namespace Mos6502

variable {origin : UInt16} {externs : SymbolMap} {i : Placed} {r : Relocation}

/-! ### The linker's displacement -/

/-- The linker's distance of a branch at `i` to a value. -/
theorem linkDistance_eq (hr : r.Records i) (origin value : UInt16) :
    r.distance origin value = (value.toNat : Int) - origin.toNat - (i.address + 2) := by
  rw [Relocation.distance, hr.offset]
  omega

/-- Below the top of the address space the linker computes what emission has
computed. -/
theorem patchBytes_relative (hr : r.Records i) (hkind : r.kind = .relative) {address : Nat}
    {d : UInt8} (hlt : origin.toNat + address < addressSpace)
    (hd : displacement address i.address = .ok d) :
    patchBytes origin r (origin + address.toUInt16) = .ok [d] := by
  obtain ⟨hfits, rfl⟩ := displacement_eq_ok_iff.mp hd
  have hvalue : (origin + address.toUInt16).toNat = origin.toNat + address := by
    rw [toNat_origin_add, Nat.mod_eq_of_lt hlt]
  have hdist : r.distance origin (origin + address.toUInt16) =
      (address : Int) - (i.address + 2) := by
    rw [linkDistance_eq hr, hvalue]
    omega
  rw [patchBytes_branch hkind, hdist, if_pos hfits]

/-- At the top of the address space the value of a label wraps, and no branch
reaches it. -/
theorem patchBytes_pastTop (hr : r.Records i) (hkind : r.kind = .relative) {address : Nat}
    {d : UInt8} (htop : origin.toNat + address = addressSpace)
    (hd : displacement address i.address = .ok d) :
    patchBytes origin r (origin + address.toUInt16) =
      .error (.symbol (doesNotReach r ((address : Int) - (i.address + 2) - addressSpace))) := by
  obtain ⟨⟨-, hhigh⟩, -⟩ := displacement_eq_ok_iff.mp hd
  have hvalue : (origin + address.toUInt16).toNat = 0 := by
    rw [toNat_origin_add, htop, Nat.mod_self]
  have hdist : r.distance origin (origin + address.toUInt16) =
      (address : Int) - (i.address + 2) - addressSpace := by
    rw [linkDistance_eq hr, hvalue, ← htop]
    omega
  have hfar : ¬ (-128 ≤ (address : Int) - (i.address + 2) - addressSpace ∧
      (address : Int) - (i.address + 2) - addressSpace ≤ 127) := by
    rw [addressSpace]
    omega
  rw [patchBytes_branch hkind, hdist, if_neg hfar]

/-- Only a branch is out of range. -/
theorem kind_of_branchOutOfRange {symbols : SymbolMap} {length : Nat} {e : LinkError}
    (h : patchOf origin symbols externs length r = .error e)
    (hfault : e.fault = .branchOutOfRange) : r.kind = .relative := by
  cases patchOf_eq_error_iff.mp h with
  | undefined => cases hfault
  | outside => cases hfault
  | unknown => cases hfault
  | tooLarge => cases hfault
  | tooFar _ _ hkind _ => exact hkind

/-! ### Branches of a built program -/

/-- The label of a relocation has no address at this origin: it is one past
the last. -/
def Program.PastTop (p : Program) (origin : UInt16) (r : Relocation) : Prop :=
  ∃ s, p.symbol? r.symbol = some s ∧ origin.toNat + s.address = addressSpace

namespace Program

variable {p : Program} {raw : Bytes}

/-- A branch of an emitted program, as the linker sees it: its label has a
value, and its patch is the byte that is there, unless the label is past the
top. -/
theorem patchOf_branch (hp : p.WellFormed) (hraw : p.rawBytes = .ok raw)
    (hfit : origin.toNat + p.size ≤ addressSpace) (externs : SymbolMap) {r : Relocation}
    (hr : r ∈ p.relocations) (hkind : r.kind = .relative) :
    ∃ d, raw[r.offset.toNat]? = some d ∧
      (¬ p.PastTop origin r → patchOf origin p.symbolMap externs raw.length r = .ok [d]) ∧
      (p.PastTop origin r → ∃ distance, patchOf origin p.symbolMap externs raw.length r =
        .error (.symbol (doesNotReach r distance))) := by
  obtain ⟨i, hi, hri⟩ := exists_records hp hr
  obtain ⟨s, d, hs, hd, hat⟩ := rawBytes_branch hp hraw hi hri hkind
  have hslot : ¬ raw.length < r.offset.toNat + r.kind.width := by
    rw [length_rawBytes hp hraw, hri.slot_end]
    have := (hp.laidOut.bounds hi).2
    omega
  have hpatch : patchOf origin p.symbolMap externs raw.length r =
      patchBytes origin r (origin + s.address.toUInt16) := by
    rw [patchOf, resolve?_of_symbol? hs]
    exact if_neg hslot
  have htop : p.PastTop origin r ↔ origin.toNat + s.address = addressSpace := by
    rw [PastTop, hs]
    simp
  refine ⟨d, hat, ?_, ?_⟩
  · intro hnot
    have hle := hp.symbol_le s (mem_of_symbol? hs).1
    rw [htop] at hnot
    rw [hpatch]
    exact patchBytes_relative hri hkind (by omega) hd
  · intro hpast
    rw [hpatch]
    exact ⟨_, patchBytes_pastTop hri hkind (htop.mp hpast) hd⟩

end Program

/-- **Branches do not depend on the origin, below the top of the address
space.**  For a built program whose bytes are emitted and an origin at which
it fits:

* a branch relocation rewrites its slot with the byte that emission has put
  there, unless its label is past the top; then it is refused;
* linking reports a branch out of range exactly if it comes to a branch whose
  label is past the top;
* a linked image agrees with the emitted bytes on the slot of every branch. -/
theorem build_link_branches {nodes : List Node} {p : Program} {raw : Bytes}
    (hbuild : build nodes = .ok p) (hraw : p.rawBytes = .ok raw) (origin : UInt16)
    (hfit : origin.toNat + p.size ≤ addressSpace) (externs : SymbolMap) :
    (∀ r ∈ p.relocations, r.kind = .relative → ∀ image : Array UInt8, image.size = p.size →
      (¬ p.PastTop origin r ↔ ∃ d, raw[r.offset.toNat]? = some d ∧
        applyRelocation origin p.symbolMap externs image r =
          .ok (overwrite image r.offset.toNat [d])) ∧
      (p.PastTop origin r ↔ ∃ distance,
        applyRelocation origin p.symbolMap externs image r =
          .error (.symbol (doesNotReach r distance)))) ∧
    ((∃ e, p.link origin externs = .error e ∧ e.fault = .branchOutOfRange) ↔
      ∃ before r after, p.relocations = before ++ r :: after ∧
        (∃ image, before.foldlM (applyRelocation origin p.symbolMap externs) raw.toArray =
          .ok image) ∧
        r.kind = .relative ∧ p.PastTop origin r) ∧
    ∀ image, p.link origin externs = .ok image → ∀ r ∈ p.relocations, r.kind = .relative →
      image[r.offset.toNat]? = raw[r.offset.toNat]? := by
  have hp := build_wellFormed hbuild
  have hlen := Program.length_rawBytes hp hraw
  have hbranch := fun r => Program.patchOf_branch hp hraw hfit externs (r := r)
  refine ⟨?_, ?_, ?_⟩
  · intro r hr hkind image hsize
    obtain ⟨d, hat, hbelow, hpast⟩ := hbranch r hr hkind
    rw [applyRelocation_eq, hsize, ← hlen]
    by_cases htop : p.PastTop origin r
    · obtain ⟨distance, hpatch⟩ := hpast htop
      simp [hpatch, htop, Except.map]
    · simp [hbelow htop, htop, hat, Except.map]
  · rw [Program.link_eq_applyAll hraw (by omega)]
    constructor
    · rintro ⟨e, he, hfault⟩
      have hrun : p.relocations.foldlM (applyRelocation origin p.symbolMap externs)
          raw.toArray = .error e := by
        rcases hrun : p.relocations.foldlM (applyRelocation origin p.symbolMap externs)
            raw.toArray with e' | out
        · rw [hrun] at he
          cases he
          rfl
        · rw [hrun] at he
          cases he
      obtain ⟨before, r, after, hrs, hbefore, hr⟩ := applyAll_eq_error_iff.mp hrun
      rw [List.size_toArray] at hr
      have hkind := kind_of_branchOutOfRange hr hfault
      refine ⟨before, r, after, hrs, applyAll_ok_iff.mpr hbefore, hkind, ?_⟩
      by_contra htop
      obtain ⟨d, -, hbelow, -⟩ := hbranch r (by simp [hrs]) hkind
      rw [hbelow htop] at hr
      cases hr
    · rintro ⟨before, r, after, hrs, hbefore, hkind, htop⟩
      obtain ⟨d, -, -, hpast⟩ := hbranch r (by simp [hrs]) hkind
      obtain ⟨distance, hpatch⟩ := hpast htop
      have hrun : p.relocations.foldlM (applyRelocation origin p.symbolMap externs)
          raw.toArray = .error (.symbol (doesNotReach r distance)) := by
        refine applyAll_eq_error_iff.mpr
          ⟨before, r, after, hrs, applyAll_ok_iff.mp hbefore, ?_⟩
        rw [List.size_toArray]
        exact hpatch
      rw [hrun]
      exact ⟨_, rfl, rfl⟩
  · intro image hlink r hr hkind
    obtain ⟨bytes, hpatch, hslot⟩ := Program.image_slot hp hraw hlink hr
    obtain ⟨d, hat, hbelow, hpast⟩ := hbranch r hr hkind
    have hcovers : r.Covers r.offset.toNat := ⟨Nat.le_refl _, by have := r.kind.width_pos; omega⟩
    rw [hslot _ hcovers, Nat.sub_self, hat]
    by_cases htop : p.PastTop origin r
    · obtain ⟨distance, herr⟩ := hpast htop
      rw [hpatch] at herr
      cases herr
    · rw [hbelow htop] at hpatch
      cases hpatch
      rfl

/-- A loop that ends one byte below the top of the address space. -/
theorem build_link_branches_belowTop :
    ∃ p raw, build
      [.instruction 1 [ascii "loop"] (ascii "DEX") none,
       .instruction 2 [] (ascii "BNE") (some ⟨.bare, ascii "loop", 0, ascii "loop"⟩),
       .instruction 3 [] (ascii "BEQ") (some ⟨.bare, ascii "done", 0, ascii "done"⟩),
       .label 4 [ascii "done"]] = .ok p ∧
      p.rawBytes = .ok raw ∧ (0xFFFA : UInt16).toNat + p.size ≤ addressSpace ∧
      p.link 0xFFFA [] = .ok [0xCA, 0xD0, 0xFD, 0xF0, 0x00] ∧
      ∀ image, p.link 0xFFFA [] = .ok image → ∀ r ∈ p.relocations, r.kind = .relative →
        image[r.offset.toNat]? = raw[r.offset.toNat]? := by
  have hbuild : build
      [.instruction 1 [ascii "loop"] (ascii "DEX") none,
       .instruction 2 [] (ascii "BNE") (some ⟨.bare, ascii "loop", 0, ascii "loop"⟩),
       .instruction 3 [] (ascii "BEQ") (some ⟨.bare, ascii "done", 0, ascii "done"⟩),
       .label 4 [ascii "done"]] =
      .ok ⟨#[⟨0, .dex, .implied, .none, 1⟩, ⟨1, .bne, .relative, .label (ascii "loop"), 2⟩,
        ⟨3, .beq, .relative, .label (ascii "done"), 3⟩],
        #[⟨ascii "loop", 0, some 0, 1⟩, ⟨ascii "done", 5, none, 4⟩], 5⟩ := by
    decide +kernel
  exact ⟨_, [0xCA, 0xD0, 0xFD, 0xF0, 0x00], hbuild, by decide +kernel, by decide,
    by decide +kernel, (build_link_branches hbuild (by decide +kernel) 0xFFFA (by decide) []).2.2⟩

/-- A branch to the end of its section: emitted, and in reach at every lower
origin, but refused where the section ends at the top of the address space. -/
theorem link_branch_to_top :
    ∃ p, build
      [.instruction 1 [] (ascii "BNE") (some ⟨.bare, ascii "done", 0, ascii "done"⟩),
       .label 2 [ascii "done"]] = .ok p ∧
      p.rawBytes = .ok [0xD0, 0x00] ∧ (0xFFFE : UInt16).toNat + p.size ≤ addressSpace ∧
      p.link 0xFFFD [] = .ok [0xD0, 0x00] ∧
      ∃ e, p.link 0xFFFE [] = .error e ∧ e.fault = .branchOutOfRange := by
  refine ⟨⟨#[⟨0, .bne, .relative, .label (ascii "done"), 1⟩],
    #[⟨ascii "done", 2, none, 2⟩], 2⟩, by decide +kernel, by decide +kernel, by decide,
    by decide +kernel, ?_⟩
  exact ⟨.symbol (doesNotReach ⟨ascii "done", 1, .relative⟩ (-65536)), by decide +kernel, rfl⟩

end Mos6502
