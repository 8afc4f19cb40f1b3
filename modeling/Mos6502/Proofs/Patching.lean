/-
Mos6502/Proofs/Patching.lean

Relocations applied to an image, one after the other.  What a relocation
writes depends on the image only through its length, and no relocation changes
the length; `patchOf` is that part alone.  So whether linking succeeds is
decided relocation by relocation, and the image after all of them is known
byte by byte:

* `applyRelocation_eq_ok_iff` — one relocation, from which all else follows;
* `applyAll_ok_iff`, `applyAll_eq_error_iff` — linking succeeds exactly if
  every relocation has a patch, and otherwise reports the first that has none;
* `applyAll_frame`, `applyAll_last` — a byte that no slot covers is unchanged,
  and a covered one is that of the last relocation that covers it.

Nothing here assumes that slots are disjoint or that the section comes from a
program.
-/
import Mos6502.Link
import Mos6502.Proofs.Emission

namespace Mos6502

/-! ### One write -/

@[simp] theorem size_overwrite (image : Array UInt8) (offset : Nat) (bytes : Bytes) :
    (overwrite image offset bytes).size = image.size := by
  induction bytes generalizing image offset with
  | nil => rfl
  | cons b rest ih => rw [overwrite, ih, Array.size_setIfInBounds]

theorem getElem?_overwrite_outside (image : Array UInt8) {offset k : Nat} {bytes : Bytes}
    (hk : k < offset ∨ offset + bytes.length ≤ k) :
    (overwrite image offset bytes)[k]? = image[k]? := by
  induction bytes generalizing image offset with
  | nil => rfl
  | cons b rest ih =>
    rw [List.length_cons] at hk
    rw [overwrite, ih (image.setIfInBounds offset b) (by omega),
      Array.getElem?_setIfInBounds_ne (by omega)]

theorem getElem?_overwrite_inside (image : Array UInt8) (offset : Nat) {k : Nat} {bytes : Bytes}
    (hk : k < bytes.length) (hfit : offset + bytes.length ≤ image.size) :
    (overwrite image offset bytes)[offset + k]? = bytes[k]? := by
  induction bytes generalizing image offset k with
  | nil => exact absurd hk (Nat.not_lt_zero k)
  | cons b rest ih =>
    rw [List.length_cons] at hk hfit
    rw [overwrite]
    cases k with
    | zero =>
      rw [Nat.add_zero, getElem?_overwrite_outside _ (by omega)]
      exact Array.getElem?_setIfInBounds_self_of_lt (by omega)
    | succ k =>
      rw [show offset + (k + 1) = offset + 1 + k by omega, List.getElem?_cons_succ]
      exact ih _ _ (by omega) (by rw [Array.size_setIfInBounds]; omega)

/-! ### One relocation -/

variable {origin : UInt16} {symbols externs : SymbolMap}

/-- What a relocation writes into an image of a given length, or why it writes
nothing. -/
def patchOf (origin : UInt16) (symbols externs : SymbolMap) (length : Nat) (r : Relocation) :
    Except LinkError Bytes :=
  match resolve? origin symbols externs r.symbol with
  | none => .error (.symbol (undefinedSymbol r))
  | some value =>
    if length < r.offset.toNat + r.kind.width then .error (.outside r length)
    else patchBytes origin r value

theorem length_patchBytes {r : Relocation} {value : UInt16} {bytes : Bytes}
    (h : patchBytes origin r value = .ok bytes) : bytes.length = r.kind.width := by
  unfold patchBytes at h
  rcases hkind : r.kind with - | - | - | - | n <;> simp only [hkind] at h
  · split at h
    · cases h
      rfl
    · cases h
  · cases h
    rfl
  · cases h
    rfl
  · split at h <;> cases h
    rfl
  · cases h

theorem patchOf_eq_ok_iff {length : Nat} {r : Relocation} {bytes : Bytes} :
    patchOf origin symbols externs length r = .ok bytes ↔
      ∃ value, resolve? origin symbols externs r.symbol = some value ∧
        r.offset.toNat + r.kind.width ≤ length ∧ patchBytes origin r value = .ok bytes := by
  unfold patchOf
  rcases resolve? origin symbols externs r.symbol with - | value
  · simp
  · simp only [Option.some.injEq, exists_eq_left']
    split
    · constructor
      · intro h
        cases h
      · rintro ⟨hle, -⟩
        omega
    · constructor
      · intro h
        exact ⟨by omega, h⟩
      · rintro ⟨-, h⟩
        exact h

/-- A patch is as long as its slot and lies inside the image. -/
theorem patchOf_fits {length : Nat} {r : Relocation} {bytes : Bytes}
    (h : patchOf origin symbols externs length r = .ok bytes) :
    bytes.length = r.kind.width ∧ r.offset.toNat + r.kind.width ≤ length := by
  obtain ⟨value, -, hle, hbytes⟩ := patchOf_eq_ok_iff.mp h
  exact ⟨length_patchBytes hbytes, hle⟩

/-- Applying a relocation writes its patch into the slot, or fails for the
same reason that there is no patch. -/
theorem applyRelocation_eq (image : Array UInt8) (r : Relocation) :
    applyRelocation origin symbols externs image r =
      (patchOf origin symbols externs image.size r).map (overwrite image r.offset.toNat) := by
  unfold applyRelocation patchOf
  rcases resolve? origin symbols externs r.symbol with - | value
  · rfl
  · dsimp only
    split
    · rfl
    · rcases patchBytes origin r value with e | bytes <;> rfl

theorem applyRelocation_eq_ok_iff {image image' : Array UInt8} {r : Relocation} :
    applyRelocation origin symbols externs image r = .ok image' ↔
      ∃ bytes, patchOf origin symbols externs image.size r = .ok bytes ∧
        image' = overwrite image r.offset.toNat bytes := by
  rw [applyRelocation_eq]
  rcases patchOf origin symbols externs image.size r with e | bytes
  · simp [Except.map]
  · simp [Except.map, eq_comm]

/-! ### All relocations -/

section Run

variable {image image' : Array UInt8} {rs : List Relocation}

/-- Linking keeps the length of the image. -/
theorem applyAll_size (h : rs.foldlM (applyRelocation origin symbols externs) image = .ok image') :
    image'.size = image.size := by
  refine foldlM_invariant (P := fun im => im.size = image.size) ?_ rfl h
  intro im r im' _ him hr
  obtain ⟨bytes, -, rfl⟩ := applyRelocation_eq_ok_iff.mp hr
  rw [size_overwrite, him]

/-- A byte that no slot covers is unchanged. -/
theorem applyAll_frame
    (h : rs.foldlM (applyRelocation origin symbols externs) image = .ok image') {k : Nat}
    (hk : ∀ r ∈ rs, ¬ r.Covers k) : image'[k]? = image[k]? := by
  refine foldlM_invariant (P := fun im => im[k]? = image[k]?) ?_ rfl h
  intro im r im' hmem him hr
  obtain ⟨bytes, hpatch, rfl⟩ := applyRelocation_eq_ok_iff.mp hr
  obtain ⟨hlen, -⟩ := patchOf_fits hpatch
  have hout := hk r hmem
  rw [Relocation.Covers] at hout
  rw [getElem?_overwrite_outside im (by omega), him]

/-- A covered byte is that of the last relocation that covers it. -/
theorem applyAll_last {before after : List Relocation} {r : Relocation}
    (h : (before ++ r :: after).foldlM (applyRelocation origin symbols externs) image =
      .ok image') {k : Nat} (hk : r.Covers k) (hafter : ∀ r' ∈ after, ¬ r'.Covers k) :
    ∃ bytes, patchOf origin symbols externs image.size r = .ok bytes ∧
      image'[k]? = bytes[k - r.offset.toNat]? := by
  obtain ⟨mid, hbefore, h⟩ := foldlM_append_ok.mp h
  have hsize := applyAll_size hbefore
  rw [List.foldlM_cons] at h
  obtain ⟨mid', hr, h⟩ := bind_eq_ok_iff.mp h
  obtain ⟨bytes, hpatch, rfl⟩ := applyRelocation_eq_ok_iff.mp hr
  obtain ⟨hlen, hle⟩ := patchOf_fits hpatch
  obtain ⟨hlow, hhigh⟩ := hk
  rw [hsize] at hpatch
  refine ⟨bytes, hpatch, ?_⟩
  rw [applyAll_frame h hafter]
  have hlt : k - r.offset.toNat < bytes.length := by omega
  have hinside := getElem?_overwrite_inside mid r.offset.toNat hlt (by omega)
  rw [show r.offset.toNat + (k - r.offset.toNat) = k by omega] at hinside
  exact hinside

/-- Linking reports the first relocation that has no patch. -/
theorem applyAll_eq_error_iff {e : LinkError} :
    rs.foldlM (applyRelocation origin symbols externs) image = .error e ↔
      ∃ before r after, rs = before ++ r :: after ∧
        (∀ r' ∈ before, ∃ bytes, patchOf origin symbols externs image.size r' = .ok bytes) ∧
        patchOf origin symbols externs image.size r = .error e := by
  induction rs generalizing image with
  | nil =>
    rw [List.foldlM_nil]
    constructor
    · intro h
      cases h
    · rintro ⟨before, r, after, h, -⟩
      cases before <;> cases h
  | cons r rest ih =>
    rw [List.foldlM_cons, applyRelocation_eq]
    rcases hr : patchOf origin symbols externs image.size r with e' | bytes
    · -- the first relocation has no patch, so no later one is looked at
      constructor
      · intro h
        cases h
        exact ⟨[], r, rest, rfl, by simp, hr⟩
      · rintro ⟨before, r', after, hrs, hbefore, hr'⟩
        cases before with
        | nil =>
          cases hrs
          rw [hr] at hr'
          cases hr'
          rfl
        | cons x before =>
          obtain ⟨rfl, -⟩ := List.cons.inj hrs
          obtain ⟨bytes, hbytes⟩ := hbefore r (by simp)
          rw [hr] at hbytes
          cases hbytes
    · show rest.foldlM (applyRelocation origin symbols externs)
        (overwrite image r.offset.toNat bytes) = .error e ↔ _
      rw [ih, size_overwrite]
      constructor
      · rintro ⟨before, r', after, rfl, hbefore, hr'⟩
        refine ⟨r :: before, r', after, rfl, ?_, hr'⟩
        intro x hx
        rcases List.mem_cons.mp hx with rfl | hx
        · exact ⟨bytes, hr⟩
        · exact hbefore x hx
      · rintro ⟨before, r', after, hrs, hbefore, hr'⟩
        cases before with
        | nil =>
          cases hrs
          rw [hr] at hr'
          cases hr'
        | cons x before =>
          obtain ⟨rfl, hrest⟩ := List.cons.inj hrs
          exact ⟨before, r', after, hrest, fun y hy => hbefore y (by simp [hy]), hr'⟩

/-- Linking succeeds exactly if every relocation has a patch. -/
theorem applyAll_ok_iff :
    (∃ image', rs.foldlM (applyRelocation origin symbols externs) image = .ok image') ↔
      ∀ r ∈ rs, ∃ bytes, patchOf origin symbols externs image.size r = .ok bytes := by
  constructor
  · rintro ⟨image', h⟩ r hr
    obtain ⟨before, after, rfl⟩ := List.append_of_mem hr
    obtain ⟨mid, hbefore, h⟩ := foldlM_append_ok.mp h
    rw [List.foldlM_cons] at h
    obtain ⟨_, hstep, -⟩ := bind_eq_ok_iff.mp h
    obtain ⟨bytes, hbytes, -⟩ := applyRelocation_eq_ok_iff.mp hstep
    rw [applyAll_size hbefore] at hbytes
    exact ⟨bytes, hbytes⟩
  · intro hpatch
    rcases hrun : rs.foldlM (applyRelocation origin symbols externs) image with e | image'
    · obtain ⟨before, r, after, rfl, -, hr⟩ := applyAll_eq_error_iff.mp hrun
      obtain ⟨bytes, hbytes⟩ := hpatch r (by simp)
      rw [hr] at hbytes
      cases hbytes
    · exact ⟨image', rfl⟩

end Run

/-! ### Linking a section -/

section Whole

variable {s : Section}

/-- Past the check of the address space, linking is the pass over the
relocations. -/
theorem link_of_fits (hfit : origin.toNat + s.raw.length ≤ addressSpace) :
    link s origin externs =
      (s.relocations.foldlM (applyRelocation origin s.symbols externs) s.raw.toArray).map
        Array.toList := by
  rw [link, if_neg (Nat.not_lt.mpr hfit)]
  rfl

theorem link_of_overrun (hover : addressSpace < origin.toNat + s.raw.length) :
    link s origin externs = .error (.overrun s.raw.length origin) := by
  rw [link, if_pos hover]

theorem link_eq_ok_iff {image : Bytes} :
    link s origin externs = .ok image ↔ origin.toNat + s.raw.length ≤ addressSpace ∧ ∃ out,
      s.relocations.foldlM (applyRelocation origin s.symbols externs) s.raw.toArray = .ok out ∧
        image = out.toList := by
  by_cases hfit : origin.toNat + s.raw.length ≤ addressSpace
  · rw [link_of_fits hfit]
    rcases s.relocations.foldlM (applyRelocation origin s.symbols externs) s.raw.toArray
      with e | out
    · simp [Except.map]
    · simp [Except.map, hfit, eq_comm]
  · simp [link_of_overrun (Nat.lt_of_not_le hfit), hfit]

theorem link_eq_error_iff {e : LinkError} :
    link s origin externs = .error e ↔
      (addressSpace < origin.toNat + s.raw.length ∧ e = .overrun s.raw.length origin) ∨
      (origin.toNat + s.raw.length ≤ addressSpace ∧
        s.relocations.foldlM (applyRelocation origin s.symbols externs) s.raw.toArray =
          .error e) := by
  by_cases hfit : origin.toNat + s.raw.length ≤ addressSpace
  · rw [link_of_fits hfit]
    rcases s.relocations.foldlM (applyRelocation origin s.symbols externs) s.raw.toArray
      with e' | out
    · simp [Except.map, hfit, Nat.not_lt.mpr hfit]
    · simp [Except.map, hfit, Nat.not_lt.mpr hfit]
  · have hover := Nat.lt_of_not_le hfit
    simp [link_of_overrun hover, hover, hfit, eq_comm]

end Whole

/-! ### Linking a program -/

namespace Program

variable {p : Program} {raw image : Bytes}

theorem toSection_of_rawBytes (hraw : p.rawBytes = .ok raw) :
    p.toSection = .ok ⟨raw, p.relocations, p.symbolMap⟩ := by
  rw [toSection, hraw]
  rfl

/-- Past emission and the check of the address space, linking is the pass over
the relocations. -/
theorem link_eq_applyAll (hraw : p.rawBytes = .ok raw)
    (hfit : origin.toNat + raw.length ≤ addressSpace) :
    p.link origin externs =
      (p.relocations.foldlM (applyRelocation origin p.symbolMap externs) raw.toArray).map
        Array.toList := by
  rw [link, toSection_of_rawBytes hraw]
  exact link_of_fits hfit

theorem link_eq_ok_iff :
    p.link origin externs = .ok image ↔ ∃ raw, p.rawBytes = .ok raw ∧
      origin.toNat + raw.length ≤ addressSpace ∧ ∃ out,
        p.relocations.foldlM (applyRelocation origin p.symbolMap externs) raw.toArray = .ok out ∧
          image = out.toList := by
  rcases hraw : p.rawBytes with e | raw
  · simp [link, toSection, hraw, bind, Except.bind]
  · simp only [Except.ok.injEq, exists_eq_left']
    rw [link, toSection_of_rawBytes hraw]
    exact Mos6502.link_eq_ok_iff

/-- The symbol table of the section gives the same addresses as the
program. -/
theorem lookup_symbolMap (p : Program) (name : Bytes) :
    p.symbolMap.lookup name = (p.symbol? name).map fun s => s.address.toUInt16 := by
  rw [symbolMap, symbol?, ← Array.find?_toList]
  induction p.symbols.toList with
  | nil => rfl
  | cons s rest ih =>
    rw [List.map_cons, List.lookup_cons, List.find?_cons]
    by_cases hname : s.name = name
    · simp [hname]
    · have hne : (name == s.name) = false := by simpa using fun h => hname h.symm
      have hne' : (s.name == name) = false := by simpa using hname
      rw [hne, hne']
      exact ih

/-- A declared label is worth its offset plus the origin. -/
theorem resolve?_of_symbol? {name : Bytes} {s : Symbol} (h : p.symbol? name = some s) :
    resolve? origin p.symbolMap externs name = some (origin + s.address.toUInt16) := by
  rw [resolve?, lookup_symbolMap, h]
  rfl

/-- Any other label is an extern. -/
theorem resolve?_of_symbol?_none {name : Bytes} (h : p.symbol? name = none) :
    resolve? origin p.symbolMap externs name = externs.lookup name := by
  rw [resolve?, lookup_symbolMap, h]
  rfl

/-! ### The linked image

In a built program the slots are disjoint, so the last relocation that covers
a byte is the only one. -/

section Image

variable (hp : p.WellFormed) (hraw : p.rawBytes = .ok raw)
  (hlink : p.link origin externs = .ok image)

include hraw hlink

theorem exists_applyAll_of_link : ∃ out,
    p.relocations.foldlM (applyRelocation origin p.symbolMap externs) raw.toArray = .ok out ∧
      image = out.toList := by
  obtain ⟨raw', hraw', -, h⟩ := link_eq_ok_iff.mp hlink
  rw [hraw] at hraw'
  cases hraw'
  exact h

theorem length_image : image.length = raw.length := by
  obtain ⟨out, hout, rfl⟩ := exists_applyAll_of_link hraw hlink
  rw [Array.length_toList, applyAll_size hout, List.size_toArray]

/-- Outside all slots the image is the emitted section. -/
theorem image_frame {k : Nat} (hk : ∀ r ∈ p.relocations, ¬ r.Covers k) : image[k]? = raw[k]? := by
  obtain ⟨out, hout, rfl⟩ := exists_applyAll_of_link hraw hlink
  rw [Array.getElem?_toList, applyAll_frame hout hk, List.getElem?_toArray]

include hp

/-- Every slot holds the patch of its relocation. -/
theorem image_slot {r : Relocation} (hr : r ∈ p.relocations) :
    ∃ bytes, patchOf origin p.symbolMap externs raw.length r = .ok bytes ∧
      ∀ k, r.Covers k → image[k]? = bytes[k - r.offset.toNat]? := by
  obtain ⟨out, hout, rfl⟩ := exists_applyAll_of_link hraw hlink
  obtain ⟨bytes, hbytes⟩ := applyAll_ok_iff.mp ⟨out, hout⟩ r hr
  rw [List.size_toArray] at hbytes
  refine ⟨bytes, hbytes, ?_⟩
  intro k hk
  have hpairwise := relocations_pairwise hp
  obtain ⟨before, after, hrs⟩ := List.append_of_mem hr
  rw [hrs] at hout hpairwise
  have hafter : ∀ r' ∈ after, ¬ r'.Covers k := by
    intro r' hr' hk'
    have hle := List.rel_of_pairwise_cons (List.pairwise_append.mp hpairwise).2.1 hr'
    exact absurd (Nat.lt_of_lt_of_le hk.2 hle) (Nat.not_lt.mpr hk'.1)
  obtain ⟨bytes', hbytes', hlast⟩ := applyAll_last hout hk hafter
  rw [List.size_toArray, hbytes] at hbytes'
  cases hbytes'
  rw [Array.getElem?_toList]
  exact hlast

end Image

theorem mem_of_symbol? {name : Bytes} {s : Symbol} (h : p.symbol? name = some s) :
    s ∈ p.symbols.toList ∧ s.name = name := by
  refine ⟨Array.mem_toList_iff.mpr (Array.mem_of_find?_eq_some h), ?_⟩
  simpa using Array.find?_some h

end Program

/-- The value of a label at an origin, modulo the address space. -/
theorem toNat_origin_add (origin : UInt16) (address : Nat) :
    (origin + address.toUInt16).toNat = (origin.toNat + address) % addressSpace := by
  rw [UInt16.toNat_add, Nat.toUInt16, UInt16.toNat_ofNat', addressSpace]
  omega

end Mos6502
