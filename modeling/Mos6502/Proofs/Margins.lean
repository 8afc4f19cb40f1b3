/-
Mos6502/Proofs/Margins.lean

A listing and the plain text, side by side.  Both are written from the same
lines of the image, and a line of a listing is the line of the plain text with
something in front of it (`Line.written`): nothing if it declares a label, and
fifteen characters otherwise.

The two texts are compared as texts.  A line declares a label if it is an
identifier with a colon behind it (`IsDeclaration`), and what a margin shows is
read from its columns (`MarginShows`), so that the comparison knows nothing of
how the lines were made.
-/
import Mos6502.Proofs.DeclarationLines

namespace Mos6502

/-! ### Lines of text -/

/-- A line that declares a label: an identifier and a colon. -/
def IsDeclaration (text : Bytes) : Prop :=
  ∃ name, isIdentifier name = true ∧ text = name ++ [0x3A]

/-- What stands in front of a line of text that is no declaration, for the bytes
at an address. -/
structure MarginShows (address : UInt16) (bytes text front : Bytes) : Prop where
  length : front.length = 15
  /-- Four digits for the address. -/
  address : readWord? (front.take 4) = some address
  /-- Two spaces. -/
  gap : (front.drop 4).take 2 = ascii "  "
  /-- Nine columns with the bytes of an instruction. -/
  code : ¬ dataDirective <+: text → readColumns? (front.drop 6) = some bytes
  /-- They are empty for data, which has its bytes in the text. -/
  data : dataDirective <+: text →
    front.drop 6 = List.replicate 9 0x20 ∧ readDirective? text = some bytes

/-- A declaration names what stands before its colon. -/
theorem IsDeclaration.exists_declaredName? {text : Bytes} (h : IsDeclaration text) :
    ∃ name, declaredName? text = some name := by
  obtain ⟨name, -, rfl⟩ := h
  exact ⟨name, by simp [declaredName?]⟩

/-- A margin shows its address, and the bytes that it was made with where the
text has none. -/
theorem marginShows_margin (address : UInt16) {bytes shown text : Bytes}
    (hshown : shown.length ≤ 3) (hcode : ¬ dataDirective <+: text → shown = bytes ∧ bytes ≠ [])
    (hdata : dataDirective <+: text → shown = [] ∧ readDirective? text = some bytes) :
    MarginShows address bytes text (margin address shown) := by
  have hcolumns : (margin address shown).drop 6 =
      Text.padRight 9 (Text.joinWith [0x20] (shown.map Numeral.byte)) := by
    rw [margin, List.drop_left' (length_addressColumns address)]
  refine ⟨length_margin address hshown, ?_, ?_, ?_, ?_⟩
  · rw [margin, List.append_assoc, List.take_left' (Numeral.length_word address), readWord?_word]
  · rw [margin, List.append_assoc, List.drop_left' (Numeral.length_word address)]
    exact List.take_left' rfl
  · intro h
    obtain ⟨rfl, hne⟩ := hcode h
    rw [hcolumns, readColumns?_padRight hne]
  · intro h
    obtain ⟨rfl, hread⟩ := hdata h
    exact ⟨hcolumns, hread⟩

/-! ### Lines of an image -/

namespace Analysis

variable {a : Analysis} {code : Bytes} {line : Line} {o : Nat}

/-- The plain text of a line declares a label exactly if the line does. -/
theorem Readable.isDeclaration_written_iff (hid : a.Readable) (hdec : a.Decodes code)
    (hline : line ∈ a.lines code) :
    IsDeclaration (line.written false a.labelAt?) ↔ line.name? ≠ none := by
  constructor
  · intro h hnone
    obtain ⟨name, hname⟩ := h.exists_declaredName?
    rw [hid.declaredName?_written hdec hline false, hnone] at hname
    cases hname
  · intro hname
    rcases cases_of_mem_lines hline with ⟨x, name, hlabel, rfl⟩ | ⟨_, _, _, rfl⟩ | ⟨_, _, rfl⟩
    · exact ⟨name, hid x name hlabel, rfl⟩
    · exact absurd rfl hname
    · exact absurd rfl hname

/-- The margin of a line with bytes shows its address and its bytes. -/
theorem Readable.marginShows_marginText (hid : a.Readable) (hdec : a.Decodes code)
    (hline : line ∈ a.lines code) (hat : line.StandsAt a o) (hname : line.name? = none) :
    MarginShows (a.addressOf o) line.bytes (line.written false a.labelAt?) line.marginText := by
  have hpos := bytes_pos_of_mem hdec hline hname
  cases line with
  | label => cases hname
  | code i =>
    have hcode : a.codeAt? o = some i := hat
    -- an instruction has one to three bytes, so it fits its columns
    have hlen : i.bytes.length ≤ 3 := by
      rw [length_bytes_of_codeAt? hdec hcode]
      cases i.mode <;> decide
    rw [← address_of_codeAt? hdec hcode]
    refine marginShows_margin i.address hlen ?_ ?_
    · exact fun _ => ⟨rfl, List.length_pos_iff.mp hpos⟩
    · exact fun h => absurd h (hid.not_dataDirective_code hdec hcode)
  | data x bytes =>
    obtain ⟨-, rfl⟩ := hat
    obtain ⟨hdirective, -⟩ := Line.plainText_data a.labelAt? (a.addressOf o) bytes
    have hread := readDirective?_data (List.length_pos_iff.mp hpos) a.labelAt? (a.addressOf o)
    refine marginShows_margin (a.addressOf o) (Nat.zero_le 3) ?_ ?_
    · exact fun h => absurd hdirective h
    · exact fun _ => ⟨rfl, hread⟩

/-- **A line of a listing is that of the plain text, with a margin unless it
declares a label.** -/
theorem Readable.written_listing (hid : a.Readable) (hdec : a.Decodes code)
    (hline : line ∈ a.lines code) (hat : line.StandsAt a o) :
    (IsDeclaration (line.written false a.labelAt?) →
      line.written true a.labelAt? = line.written false a.labelAt? ∧ line.bytes = []) ∧
    (¬ IsDeclaration (line.written false a.labelAt?) →
      ∃ front, line.written true a.labelAt? = front ++ line.written false a.labelAt? ∧
        MarginShows (a.addressOf o) line.bytes (line.written false a.labelAt?) front) := by
  rw [hid.isDeclaration_written_iff hdec hline, not_not]
  constructor
  · intro hname
    cases line with
    | label => exact ⟨rfl, rfl⟩
    | code => exact absurd rfl hname
    | data => exact absurd rfl hname
  · intro hname
    exact ⟨line.marginText, rfl, hid.marginShows_marginText hdec hline hat hname⟩

theorem Readable.lines_written_printed (hid : a.Readable) (hdec : a.Decodes code)
    (listing : Bool) :
    Mos6502.lines ((a.printed code).flatMap (Line.text listing a.labelAt?)) =
      (a.printed code).map (Line.written listing a.labelAt?) ++ [[]] := by
  unfold printed
  split
  · rfl
  · exact hid.lines_written hdec listing

theorem flatMap_bytes_printed (hdec : a.Decodes code) :
    (a.printed code).flatMap Line.bytes = code := by
  unfold printed
  split
  · next hnil => exact hnil.symm
  · exact flatMap_bytes_lines hdec

end Analysis

/-! ### Texts of an image -/

theorem disassemble_of_overrun {code : Bytes} {origin : UInt16}
    (hover : 0x10000 < origin.toNat + code.length) (symbols : SymbolMap) (listing : Bool) :
    disassemble code ⟨origin, symbols, listing⟩ = .error ⟨code.length, origin⟩ := by
  have hempty : code.isEmpty = false := by
    rcases code with - | ⟨b, rest⟩
    · have horigin := origin.toNat_lt
      rw [List.length_nil] at hover
      omega
    · rfl
  rw [disassemble, hempty, if_neg Bool.false_ne_true]
  exact if_pos hover

/-- **A listing is the plain text with margins.**  An image that runs past the
address space has neither, with the same fault.  Any other image has both, in
lines that all end with a line feed, and:

* there are equally many, and each of them stands for some bytes of the image,
  in order;
* a line that declares a label stands for none and is the same in both texts;
* any other line of the listing is that of the plain text behind fifteen
  characters, which show the address of its first byte in four digits, two
  spaces, and its bytes in nine columns. -/
theorem disassemble_margins (code : Bytes) (origin : UInt16) {symbols : SymbolMap}
    (hid : ∀ entry ∈ symbols, isIdentifier entry.1 = true) :
    (0x10000 < origin.toNat + code.length ∧ ∀ listing,
      disassemble code ⟨origin, symbols, listing⟩ = .error ⟨code.length, origin⟩) ∨
    (origin.toNat + code.length ≤ 0x10000 ∧ ∃ plain listing, ∃ ps ls chunks : List Bytes,
      disassemble code ⟨origin, symbols, false⟩ = .ok plain ∧ lines plain = ps ++ [[]] ∧
      disassemble code ⟨origin, symbols, true⟩ = .ok listing ∧ lines listing = ls ++ [[]] ∧
      ps.length = ls.length ∧ ps.length = chunks.length ∧ chunks.flatten = code ∧
      ∀ k p l bytes, ps[k]? = some p → ls[k]? = some l → chunks[k]? = some bytes →
        (IsDeclaration p → l = p ∧ bytes = []) ∧
        (¬ IsDeclaration p → ∃ front address, l = front ++ p ∧
          MarginShows address bytes p front ∧
          address.toNat = origin.toNat + (chunks.take k).flatten.length)) := by
  by_cases hfit : origin.toNat + code.length ≤ 0x10000
  · right
    have hdec := Analysis.decodes_ofImage origin symbols code
    have hread : (Analysis.ofImage origin symbols code).Readable :=
      Analysis.readable_of_identifiers hid
    refine ⟨hfit, _, _, _, _,
      ((Analysis.ofImage origin symbols code).printed code).map Line.bytes,
      disassemble_eq_printed hfit symbols false, hread.lines_written_printed hdec false,
      disassemble_eq_printed hfit symbols true, hread.lines_written_printed hdec true,
      by simp, by simp, ?_, ?_⟩
    · rw [← List.flatMap_def, Analysis.flatMap_bytes_printed hdec]
    · intro k p l bytes hp hl hbytes
      rw [List.getElem?_map, Option.map_eq_some_iff] at hp hl hbytes
      obtain ⟨line, hk, rfl⟩ := hp
      obtain ⟨line', hk', rfl⟩ := hl
      obtain ⟨line'', hk'', rfl⟩ := hbytes
      cases Option.some.inj (hk.symm.trans hk')
      cases Option.some.inj (hk.symm.trans hk'')
      have hshown : (Analysis.ofImage origin symbols code).printed code =
          (Analysis.ofImage origin symbols code).lines code :=
        if_neg (Analysis.mem_printed_iff.mp (List.mem_of_getElem? hk)).1
      rw [hshown] at hk ⊢
      obtain ⟨hlt, hat⟩ := Analysis.standsAt_of_getElem? hdec hfit hk
      obtain ⟨hsame, hmargin⟩ := hread.written_listing hdec (List.mem_of_getElem? hk) hat
      refine ⟨hsame, ?_⟩
      intro hdeclares
      obtain ⟨front, hfront, hshows⟩ := hmargin hdeclares
      refine ⟨front, _, hfront, hshows, ?_⟩
      rw [Analysis.toNat_addressOf hlt, Line.offset, List.flatMap_def, List.map_take]
      rfl
  · left
    have hover : 0x10000 < origin.toNat + code.length := Nat.lt_of_not_le hfit
    exact ⟨hover, disassemble_of_overrun hover symbols⟩

/-- Instructions of one, two and three bytes, and a byte of data. -/
def callAndLoop : Bytes :=
  [0x20, 0x06, 0x80, 0xD0, 0xFB, 0x60, 0xEA, 0x60, 0xFF]

/-- Names for the start and the end. -/
def callSymbols : SymbolMap :=
  [(ascii "main", 0x8000), (ascii "end", 0x8009)]

/-- Labels at the start, inside and at the end, between lines with margins. -/
theorem disassemble_margins_subroutine :
    ∃ plain listing, ∃ ps ls chunks : List Bytes,
      plain = ascii "main:\n    JSR sub_8006\n    BNE main\n    RTS\nsub_8006:\n" ++
        ascii "    NOP\n    RTS\n    .byte $FF\nend:\n" ∧
      listing = ascii "main:\n8000  20 06 80     JSR sub_8006\n8003  D0 FB        BNE main\n" ++
        ascii "8005  60           RTS\nsub_8006:\n8006  EA           NOP\n" ++
        ascii "8007  60           RTS\n8008               .byte $FF\nend:\n" ∧
      disassemble callAndLoop ⟨0x8000, callSymbols, false⟩ = .ok plain ∧
      lines plain = ps ++ [[]] ∧
      disassemble callAndLoop ⟨0x8000, callSymbols, true⟩ = .ok listing ∧
      lines listing = ls ++ [[]] ∧ ps.length = ls.length ∧ ps.length = chunks.length ∧
      chunks.flatten = callAndLoop ∧
      ∀ k p l bytes, ps[k]? = some p → ls[k]? = some l → chunks[k]? = some bytes →
        (IsDeclaration p → l = p ∧ bytes = []) ∧
        (¬ IsDeclaration p → ∃ front address, l = front ++ p ∧
          MarginShows address bytes p front ∧
          address.toNat = (0x8000 : UInt16).toNat + (chunks.take k).flatten.length) := by
  have hid : ∀ entry ∈ callSymbols, isIdentifier entry.1 = true := by decide +kernel
  have hplain : disassemble callAndLoop ⟨0x8000, callSymbols, false⟩ =
      .ok (ascii "main:\n    JSR sub_8006\n    BNE main\n    RTS\nsub_8006:\n" ++
        ascii "    NOP\n    RTS\n    .byte $FF\nend:\n") := by
    decide +kernel
  have hlisting : disassemble callAndLoop ⟨0x8000, callSymbols, true⟩ =
      .ok (ascii "main:\n8000  20 06 80     JSR sub_8006\n8003  D0 FB        BNE main\n" ++
        ascii "8005  60           RTS\nsub_8006:\n8006  EA           NOP\n" ++
        ascii "8007  60           RTS\n8008               .byte $FF\nend:\n") := by
    decide +kernel
  rcases disassemble_margins callAndLoop 0x8000 hid with
    ⟨hover, -⟩ | ⟨-, plain, listing, ps, ls, chunks, hplain', hps, hlisting', hls, hlength, hcount,
      hbytes, hmargins⟩
  · exact absurd hover (by decide)
  · refine ⟨plain, listing, ps, ls, chunks, ?_, ?_, hplain', hps, hlisting', hls, hlength,
      hcount, hbytes, hmargins⟩
    · exact Except.ok.inj (hplain'.symm.trans hplain)
    · exact Except.ok.inj (hlisting'.symm.trans hlisting)

end Mos6502
