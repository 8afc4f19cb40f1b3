/-
Mos6502/Proofs/ImageFormats.lean

The two formats of an image are told apart by their bytes.  The disassembler
takes an input that reads as an ELF image of a 6502 program for one, and
anything else for a bare image.

* What is written as an ELF image is read back (`Elf.readImage_writeImage`).
* A linked image is empty or starts with an instruction, and no opcode is the
  first byte of the magic number (`Program.Linked.readImage`).

So the guess is right for both formats.  The origin in the header is a word
again when it is read, and both runs see the same code at the same address.
What they then do with the text depends on the output file alone
(`Command.Dis65.Delivers`).
-/
import Mos6502.Command.Disassembly
import Mos6502.Proofs.Faults
import Mos6502.Proofs.ImageHeader
import Mos6502.Proofs.Placement
import Mos6502.Proofs.Rendering
import Mos6502.Proofs.Replacement

namespace Mos6502

/-! ### ELF images -/

namespace Elf

/-- Machine code is no ELF image: the magic number starts with a byte that is no
opcode. -/
theorem readImage_of_fetch? {address : UInt16} {data : Bytes} {i : Instruction}
    (h : Instruction.fetch? address data = some i) : readImage data = .error .notElf := by
  have hmagic : magic.isPrefixOf data = false := by
    rw [Bool.eq_false_iff]
    intro hpre
    obtain ⟨rest, rfl⟩ := List.isPrefixOf_iff_prefix.mp hpre
    have hopcode : Opcode.decode? 0x7F = none := rfl
    rw [magic, List.cons_append, Instruction.fetch?, hopcode] at h
    cases h
  rw [readImage, hmagic]
  rfl

end Elf

/-! ### Linked images -/

section Linked

variable {p : Program} {origin : UInt16} {externs : SymbolMap} {image : Bytes}

/-- A linked image starts with an instruction unless it is empty. -/
theorem Program.Linked.eq_nil_or_fetch? (h : p.Linked origin externs image) :
    image = [] ∨ ∃ i, Instruction.fetch? origin image = some i := by
  have hhead := h.wellFormed.laidOut.address_head
  rcases hcode : p.code.toList with - | ⟨i, rest⟩
  · left
    rw [hcode] at hhead
    exact List.length_eq_zero_iff.mp (h.length.trans hhead)
  · right
    rw [hcode] at hhead
    obtain ⟨inst, hinst, -⟩ := h.decodes i (by rw [hcode]; exact List.mem_cons_self)
    rw [show i.address = 0 from hhead] at hinst
    exact ⟨inst, by simpa using hinst⟩

theorem Program.Linked.readImage (h : p.Linked origin externs image) :
    Elf.readImage image = .error .notElf := by
  rcases h.eq_nil_or_fetch? with rfl | ⟨i, hi⟩
  · rfl
  · exact Elf.readImage_of_fetch? hi

end Linked

/-! ### The command -/

namespace Command.Dis65

variable {a a' : Arguments} {t t' : FileTree} {origin : UInt16} {data image text : Bytes}

/-- What a run does with a text: it prints the text if no output file is named,
and else writes the text there and nothing to the screen but a message.  Where
no file can be written it fails. -/
structure Delivers (a : Arguments) (t : FileTree) (text : Bytes) (result : Report × FileTree) :
    Prop where
  printed : a.positional 1 = [] → result = (.success text, t)
  written : a.positional 1 ≠ [] → ∀ t', t.write (a.positional 1) text = .ok t' →
    result = (.success (ascii "Disassembly written to " ++ a.positional 1 ++ [0x0A]), t') ∧
      t'.read (a.positional 1) = .ok text
  refused : a.positional 1 ≠ [] → ∀ e, t.write (a.positional 1) text = .error e →
    result = (.failure [] e.message, t)

theorem delivers_finish (a : Arguments) (t : FileTree) (text : Bytes) :
    Delivers a t text ((finish a text).run t) := by
  refine ⟨?_, ?_, ?_⟩
  · intro hnil
    rw [finish, if_pos (by simpa using hnil)]
    rfl
  · intro hne t' hwrite
    rw [finish, if_neg (by simpa using hne)]
    refine ⟨?_, FileTree.read_of_write hwrite⟩
    simp only [Script.run, hwrite]
  · intro hne e hwrite
    rw [finish, if_neg (by simpa using hne)]
    simp only [Script.run, hwrite]

/-- What a run does once its input has a text. -/
theorem run_command (hread : t.read (a.positional 0) = .ok data)
    (htext : textOf a data = .ok text) : (command a).run t = (finish a text).run t := by
  simp only [command, Script.run, hread, htext]

theorem textOf_eq_ok {code : Bytes} {place : UInt16} (horigin : originOf a = .ok origin)
    (hcode : codeOf origin data = (code, place))
    (htext : disassemble code ⟨place, [], a.flag "listing"⟩ = .ok text) :
    textOf a data = .ok text := by
  simp only [textOf, horigin, hcode, htext]

theorem codeOf_writeImage (other origin : UInt16) (code : Bytes) :
    codeOf other (Elf.writeImage origin.toUInt32 code) = (code, origin) := by
  rw [codeOf, Elf.readImage_writeImage]
  show (code, origin.toUInt32.toUInt16) = (code, origin)
  simp

/-- The option can name every origin. -/
theorem originOf_wordLiteral (h : a.text "origin" = Numeral.wordLiteral origin) :
    originOf a = .ok origin := by
  have hink : Text.Inked (Numeral.wordLiteral origin) := Text.inked_of_forall fun b hb =>
    Byte.isInk_of_isPlain ((isValueText_wordLiteral origin).isPlain b hb)
  have hle : origin.toNat ≤ 0xFFFF := Nat.le_of_lt_succ origin.toNat_lt
  rw [originOf, h, parseAddress, Text.trim_of_inked hink]
  simp [Numeral.wordLiteral, splitNumeral, Numeral.readHex?_word, hle]

/-- **Both formats give the same text.**  A linked image is never taken for an
ELF image.  Disassembled as a bare image with its origin as an option, which
can name every origin, or as the ELF image that has the origin as its entry
point, it gives the same text, with or without a margin.  Both runs print that
text, or write it to the output file that they name; with the same one in the
same tree they end alike in all respects. -/
theorem command_either_format {source : Bytes} {p : Program} {externs : SymbolMap}
    (hassemble : assemble source = .ok p) (hlink : p.link origin externs = .ok image) :
    (∃ e, Elf.readImage image = .error e ∧ Diagnostic.fault e = .notImage) ∧
      (∀ a : Arguments, a.text "origin" = Numeral.wordLiteral origin → originOf a = .ok origin) ∧
      ∀ a a' t t', t.read (a.positional 0) = .ok image →
        t'.read (a'.positional 0) = .ok (Elf.writeImage origin.toUInt32 image) →
        originOf a = .ok origin → (∃ other, originOf a' = .ok other) →
        a.flag "listing" = a'.flag "listing" →
        ∃ text, disassemble image ⟨origin, [], a.flag "listing"⟩ = .ok text ∧
          Delivers a t text ((command a).run t) ∧ Delivers a' t' text ((command a').run t') ∧
          (t = t' → a.positional 1 = a'.positional 1 →
            (command a).run t = (command a').run t') := by
  obtain ⟨nodes, -, hbuild⟩ := assemble_eq_ok hassemble
  have hlinked := build_linked hbuild hlink
  have hbare := hlinked.readImage
  refine ⟨⟨_, hbare, rfl⟩, fun a => originOf_wordLiteral, ?_⟩
  rintro a a' t t' hread hread' horigin ⟨other, hother⟩ hlisting
  obtain ⟨text, htext⟩ : ∃ text, disassemble image ⟨origin, [], a.flag "listing"⟩ = .ok text :=
    ⟨_, disassemble_eq_printed (hlinked.length ▸ hlinked.fits) [] (a.flag "listing")⟩
  have hcode : codeOf origin image = (image, origin) := by rw [codeOf, hbare]
  have hcode' := codeOf_writeImage other origin image
  have hrun := run_command hread (textOf_eq_ok horigin hcode htext)
  have hrun' := run_command hread' (textOf_eq_ok hother hcode' (hlisting ▸ htext))
  refine ⟨text, htext, hrun ▸ delivers_finish a t text, hrun' ▸ delivers_finish a' t' text, ?_⟩
  rintro rfl houtput
  rw [hrun, hrun', finish, finish, houtput]

/-- A bare image and the ELF image of the same program in one directory. -/
def bothFormats : FileTree :=
  ⟨[([ascii "raw"], [0xA9, 0x05]), ([ascii "image"], Elf.writeImage 0xC000 [0xA9, 0x05])], [], []⟩

/-- A program with an extern, disassembled with a margin from either file: on
the screen, and to an output file. -/
theorem command_either_format_extern :
    ∃ p text,
      assemble (ascii "LDA #port") = .ok p ∧
      p.link 0xC000 [(ascii "port", 0x05)] = .ok [0xA9, 0x05] ∧
      text = ascii "C000  A9 05        LDA #$05\n" ∧
      (command ⟨[("listing", true)], [("origin", ascii "$C000")], [ascii "raw"]⟩).run
        bothFormats = (.success text, bothFormats) ∧
      (command ⟨[("listing", true)], [], [ascii "image"]⟩).run
        bothFormats = (.success text, bothFormats) ∧
      ∃ after, after.read (ascii "out.s") = .ok text ∧
        (command ⟨[("listing", true)], [("origin", ascii "$C000")],
          [ascii "raw", ascii "out.s"]⟩).run bothFormats =
            (.success (ascii "Disassembly written to out.s\n"), after) ∧
        (command ⟨[("listing", true)], [], [ascii "image", ascii "out.s"]⟩).run bothFormats =
          (.success (ascii "Disassembly written to out.s\n"), after) := by
  have hassemble : assemble (ascii "LDA #port") =
      .ok ⟨#[⟨0, .lda, .immediate, .label (ascii "port"), 1⟩], #[], 2⟩ := by
    decide +kernel
  have hlink : Program.link ⟨#[⟨0, .lda, .immediate, .label (ascii "port"), 1⟩], #[], 2⟩ 0xC000
      [(ascii "port", 0x05)] = .ok [0xA9, 0x05] := by
    decide +kernel
  have hraw : bothFormats.read (ascii "raw") = .ok [0xA9, 0x05] := by decide +kernel
  have helf : bothFormats.read (ascii "image") = .ok (Elf.writeImage 0xC000 [0xA9, 0x05]) := by
    decide +kernel
  have htext : disassemble [0xA9, 0x05] ⟨0xC000, [], true⟩ =
      .ok (ascii "C000  A9 05        LDA #$05\n") := by
    decide +kernel
  obtain ⟨-, horigin, hruns⟩ := command_either_format hassemble hlink
  obtain ⟨text, hsame, hbare, himage, -⟩ := hruns
    ⟨[("listing", true)], [("origin", ascii "$C000")], [ascii "raw"]⟩
    ⟨[("listing", true)], [], [ascii "image"]⟩ bothFormats bothFormats hraw helf
    (horigin _ (by decide +kernel)) ⟨_, rfl⟩ rfl
  obtain ⟨text', hsame', hbare', -, halike⟩ := hruns
    ⟨[("listing", true)], [("origin", ascii "$C000")], [ascii "raw", ascii "out.s"]⟩
    ⟨[("listing", true)], [], [ascii "image", ascii "out.s"]⟩ bothFormats bothFormats hraw helf
    (horigin _ (by decide +kernel)) ⟨_, rfl⟩ rfl
  cases htext.symm.trans hsame
  cases htext.symm.trans hsame'
  obtain ⟨hrun, hread⟩ := hbare'.written (by decide) _ rfl
  exact ⟨_, _, hassemble, hlink, rfl, hbare.printed rfl, himage.printed rfl, _, hread, hrun,
    (halike rfl rfl).symm.trans hrun⟩

end Command.Dis65

end Mos6502
