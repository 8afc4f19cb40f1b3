/-
Mos6502/Proofs/ImageHeader.lean

Reading and writing the ELF header are inverse to each other.  The layout of a
header is said here once more and in general: the identification bytes, then
every number in as many bytes as it is wide, low byte first, without padding
(`Elf.Header.layout`).

* Splitting a header off and writing it out are two readings of one equation,
  whatever the fields hold (`Elf.Header.split?_eq_some_iff`); a split fails only
  where there are too few bytes (`Elf.Header.exists_split?`).
* The two checks on a header that was read are checks on bytes at fixed places
  (`Elf.Header.getElem?_layout`, `Elf.Header.take_drop_layout`), so an image is
  known by its length and seven of its bytes (`Elf.IsImage`).
-/
import Mos6502.Elf

namespace Mos6502.Elf

/-! ### The layout -/

/-- A number in so many bytes, low byte first. -/
def littleEndian : Nat → Nat → Bytes
  | 0, _ => []
  | width + 1, n => n.toUInt8 :: littleEndian width (n / 0x100)

theorem littleEndian_word (w : UInt16) : littleEndian 2 w.toNat = Word.toBytes w := by
  simp only [littleEndian, Word.toBytes, Word.lo, Word.hi, List.cons.injEq, ← UInt8.toNat_inj,
    UInt16.toNat_toUInt8, UInt16.toNat_div, Nat.toUInt8, UInt8.toNat_ofNat',
    UInt16.reduceToNat, and_self]

theorem littleEndian_long (n : UInt32) : littleEndian 4 n.toNat = longBytes n := by
  simp only [littleEndian, longBytes, List.cons.injEq, and_true, ← UInt8.toNat_inj,
    UInt32.toNat_toUInt8, UInt32.toNat_div, Nat.toUInt8, UInt8.toNat_ofNat', UInt32.reduceToNat,
    true_and]
  omega

namespace Header

variable {h : Header} {data code : Bytes}

/-- The numbers of a header in their order, each with its width in bytes. -/
def fields (h : Header) : List (Nat × Nat) :=
  [(2, h.type.toNat), (2, h.machine.toNat), (4, h.version.toNat), (4, h.entry.toNat),
    (4, h.phoff.toNat), (4, h.shoff.toNat), (4, h.flags.toNat), (2, h.ehsize.toNat),
    (2, h.phentsize.toNat), (2, h.phnum.toNat), (2, h.shentsize.toNat), (2, h.shnum.toNat),
    (2, h.shstrndx.toNat)]

/-- The bytes of a header by its layout. -/
def layout (h : Header) : Bytes :=
  h.ident ++ h.fields.flatMap fun (width, n) => littleEndian width n

theorem layout_eq_toBytes (h : Header) : h.layout = h.toBytes := by
  simp only [layout, fields, toBytes, List.flatMap_cons, List.flatMap_nil, littleEndian_word,
    littleEndian_long, List.append_assoc, List.append_nil]

/-- The class byte stands behind the magic number. -/
theorem getElem?_layout (hident : h.ident.length = 16) (code : Bytes) :
    (h.layout ++ code)[4]? = some h.classByte := by
  have hlt : 4 < h.ident.length := by omega
  rw [layout, List.append_assoc, List.getElem?_append_left hlt, classByte,
    List.getD_eq_getElem?_getD, List.getElem?_eq_getElem hlt, Option.getD_some]

/-- The machine stands behind the identification and the type. -/
theorem take_drop_layout (hident : h.ident.length = 16) (code : Bytes) :
    ((h.layout ++ code).drop 18).take 2 = Word.toBytes h.machine := by
  have hfront : (h.ident ++ Word.toBytes h.type).length = 18 := by
    rw [List.length_append, hident]
    rfl
  rw [layout_eq_toBytes, toBytes]
  simp only [List.append_assoc]
  rw [← List.append_assoc h.ident, List.drop_left' hfront]
  rfl

/-! ### Splitting and writing -/

/-- A header is split off where it was written. -/
theorem split?_toBytes (hident : h.ident.length = 16) (code : Bytes) :
    split? (h.toBytes ++ code) = some (h, code) := by
  obtain ⟨ident, _⟩ := h
  match ident, hident with
  | [_, _, _, _, _, _, _, _, _, _, _, _, _, _, _, _], _ =>
    simp only [toBytes, longBytes, Word.toBytes, List.cons_append, List.nil_append]
    -- the bytes stand one by one now, so that each field is put together from its own
    refine congrArg some (congrArg (·, code) ?_)
    simp only [Word.ofBytes_lo_hi, longOf_toUInt8]

/-- A header that was split off is written as the bytes it was read from. -/
theorem toBytes_of_split? (hsplit : split? data = some (h, code)) :
    h.ident.length = 16 ∧ h.toBytes ++ code = data := by
  iterate 52
    rcases data with - | ⟨_, data⟩
    · cases hsplit
  cases hsplit
  refine ⟨rfl, ?_⟩
  simp only [toBytes, Word.toBytes, Word.lo_ofBytes, Word.hi_ofBytes, longBytes_longOf,
    List.cons_append, List.nil_append]

/-- **Splitting a header off is the inverse of writing it.** -/
theorem split?_eq_some_iff :
    split? data = some (h, code) ↔ h.ident.length = 16 ∧ h.layout ++ code = data := by
  rw [layout_eq_toBytes]
  constructor
  · exact toBytes_of_split?
  · rintro ⟨hident, rfl⟩
    exact split?_toBytes hident code

theorem exists_split? (hlength : headerSize ≤ data.length) :
    ∃ h code, split? data = some (h, code) := by
  rw [headerSize] at hlength
  -- the pattern takes the bytes one by one, and none of them is missing
  iterate 52
    rcases data with - | ⟨_, data⟩
    · simp at hlength
  exact ⟨_, _, rfl⟩

theorem length_layout (hident : h.ident.length = 16) : h.layout.length = headerSize := by
  rw [layout_eq_toBytes]
  simp [toBytes, hident, longBytes, Word.toBytes, headerSize]

end Header

/-! ### Images -/

/-- **An image that was written is read back.** -/
theorem readImage_writeImage (entry : UInt32) (code : Bytes) :
    readImage (writeImage entry code) = .ok ⟨Header.ofEntry entry, code⟩ := by
  have hmagic : magic.isPrefixOf (writeImage entry code) = true := rfl
  rw [readImage, hmagic, writeImage, Header.split?_toBytes rfl]
  rfl

/-- Data that holds the image of a 6502 program: it is as long as a header, starts
with the magic number, and names the class and the machine in their places. -/
def IsImage (data : Bytes) : Prop :=
  52 ≤ data.length ∧ [0x7F, 0x45, 0x4C, 0x46] <+: data ∧ data[4]? = some 0x01 ∧
    (data.drop 18).take 2 = [0x02, 0x65]

instance (data : Bytes) : Decidable (IsImage data) :=
  inferInstanceAs (Decidable (_ ∧ _))

variable {data : Bytes} {image : Image}

theorem machine_eq_iff (m : UInt16) : m = machine6502 ↔ Word.toBytes m = [0x02, 0x65] := by
  constructor
  · rintro rfl
    rfl
  · intro h
    obtain ⟨hlo, hhi⟩ : Word.lo m = 0x02 ∧ Word.hi m = 0x65 := by simpa [Word.toBytes] using h
    rw [← Word.ofBytes_lo_hi m, hlo, hhi]
    rfl

/-- The checks on a header in front of some code. -/
theorem isImage_layout_iff {h : Header} (hident : h.ident.length = 16) (code : Bytes) :
    IsImage (h.layout ++ code) ↔ magic <+: h.layout ++ code ∧ h.machine = machine6502 ∧
      h.classByte = class32 := by
  have hlength : 52 ≤ (h.layout ++ code).length := by
    rw [List.length_append, Header.length_layout hident, headerSize]
    omega
  rw [IsImage, Header.getElem?_layout hident, Header.take_drop_layout hident, machine_eq_iff,
    Option.some.injEq]
  constructor
  · rintro ⟨-, hmagic, hclass, hmachine⟩
    exact ⟨hmagic, hmachine, hclass⟩
  · rintro ⟨hmagic, hmachine, hclass⟩
    exact ⟨hlength, hmagic, hclass, hmachine⟩

/-- An image is read exactly if its header and code make up the data and the
data has the bytes that are checked. -/
theorem readImage_eq_ok_iff : readImage data = .ok image ↔ IsImage data ∧
    image.header.ident.length = 16 ∧ image.header.layout ++ image.code = data := by
  obtain ⟨header, code⟩ := image
  show readImage data = .ok ⟨header, code⟩ ↔ IsImage data ∧ header.ident.length = 16 ∧
    header.layout ++ code = data
  rw [← Header.split?_eq_some_iff]
  constructor
  · intro h
    rw [readImage] at h
    split at h
    · cases h
    next hmagic =>
    split at h
    · cases h
    next header' code' hsplit =>
    split at h
    next hchecks =>
      cases h
      obtain ⟨hident, rfl⟩ := Header.split?_eq_some_iff.mp hsplit
      refine ⟨(isImage_layout_iff hident code).mpr ⟨?_, by simpa using hchecks⟩, hsplit⟩
      simpa using hmagic
    · cases h
  · rintro ⟨himage, hsplit⟩
    obtain ⟨hident, rfl⟩ := Header.split?_eq_some_iff.mp hsplit
    obtain ⟨hmagic, hmachine, hclass⟩ := (isImage_layout_iff hident code).mp himage
    rw [readImage, List.isPrefixOf_iff_prefix.mpr hmagic, hsplit]
    simp [hmachine, hclass]

theorem exists_readImage (h : IsImage data) : ∃ image, readImage data = .ok image := by
  obtain ⟨header, code, hsplit⟩ := Header.exists_split? h.1
  exact ⟨⟨header, code⟩, readImage_eq_ok_iff.mpr ⟨h, Header.split?_eq_some_iff.mp hsplit⟩⟩

/-- What was refused is said in words that start alike. -/
theorem ReadError.prefix_message (e : ReadError) : Fault.notImage.text <+: e.message := by
  cases e with
  | notElf => exact List.prefix_rfl
  | otherMachine machine =>
    rw [ReadError.message, List.append_assoc]
    exact List.prefix_append _ _

/-- **Images are coded without loss.**  An image that was written is read back.
Data is read exactly if it is as long as a header and holds the magic number,
the class and the machine in their places; header and code then make up the
data, by the layout of the header, and no other header and code do.  All other
data is refused as no image. -/
theorem readImage_codec :
    (∀ entry code, readImage (writeImage entry code) = .ok ⟨Header.ofEntry entry, code⟩) ∧
    ∀ data, ((∃ image, readImage data = .ok image) ↔ IsImage data) ∧
      (∀ image, readImage data = .ok image ↔ IsImage data ∧
        image.header.ident.length = 16 ∧ image.header.layout ++ image.code = data) ∧
      (¬ IsImage data → ∃ e, readImage data = .error e ∧ Diagnostic.fault e = .notImage ∧
        ascii "not a 6502 ELF image" <+: Diagnostic.message e) := by
  refine ⟨readImage_writeImage, fun data => ⟨⟨?_, exists_readImage⟩, ?_, ?_⟩⟩
  · rintro ⟨image, himage⟩
    exact (readImage_eq_ok_iff.mp himage).1
  · exact fun image => readImage_eq_ok_iff
  · intro hrefused
    rcases hread : readImage data with e | image
    · exact ⟨e, rfl, rfl, e.prefix_message⟩
    · exact absurd (readImage_eq_ok_iff.mp hread).1 hrefused

/-- A header for a machine in which every byte that is not checked has all its
bits set. -/
def setBits (machine : UInt16) : Bytes :=
  magic ++ [class32] ++ List.replicate 13 0xFF ++ Word.toBytes machine ++ List.replicate 32 0xFF

/-- A header that nobody would write is read and kept, and the same for another
machine is refused. -/
theorem readImage_codec_setBits :
    (IsImage (setBits machine6502 ++ [0xEA]) ∧
      ∃ image, readImage (setBits machine6502 ++ [0xEA]) = .ok image ∧
        image.header.layout ++ image.code = setBits machine6502 ++ [0xEA]) ∧
    ¬ IsImage (setBits 0x0003) ∧
      ∃ e, readImage (setBits 0x0003) = .error e ∧ Diagnostic.fault e = .notImage := by
  obtain ⟨-, hread⟩ := readImage_codec
  have himage : IsImage (setBits machine6502 ++ [0xEA]) := by decide +kernel
  have hother : ¬ IsImage (setBits 0x0003) := by decide +kernel
  obtain ⟨image, hok⟩ := (hread _).1.mpr himage
  obtain ⟨e, herror, hfault, -⟩ := (hread _).2.2 hother
  exact ⟨⟨himage, image, hok, (((hread _).2.1 image).mp hok).2.2⟩, hother, e, herror, hfault⟩

end Mos6502.Elf
