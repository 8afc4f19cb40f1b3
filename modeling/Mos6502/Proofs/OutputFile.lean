/-
Mos6502/Proofs/OutputFile.lean

The output file of the assembler command: on every tree of files, whatever the
options and however settings files are decoded, it is replaced as a whole or
nothing is touched.

A run has settled (`Script.Settles`) if it went well and left a tree of the
wanted kind, or failed, left the tree as it was, and no tree of that kind
could have been reached.  The stages of the command are settled one by one,
from the last to the first: `settles_finish`, `settles_build`,
`settles_withSettings`, `settles_command`, `settles_dispatch`.  Each adds to the
wanted kind what its own stage has to find.

`Build.Completes` says the same without the stages: which settings count,
which path is chosen, what is written, and that all else is as it was.
-/
import Mathlib.Data.List.TakeWhile
import Mos6502.Command.Build
import Mos6502.Proofs.ExternTable
import Mos6502.Proofs.ImageHeader
import Mos6502.Proofs.Patching
import Mos6502.Proofs.Rendering
import Mos6502.Proofs.Replacement
import Mos6502.Settings.Decode

namespace Mos6502

/-! ### Extensions -/

namespace Path

/-- A text can follow a stem as its extension: a dot and what has neither dot
nor slash in it, or nothing, if the last part of the stem has no dot. -/
inductive Extension (stem : Bytes) : Bytes → Prop
  | dotted {e : Bytes} : 0x2E ∉ e → slash ∉ e → Extension stem (0x2E :: e)
  | none : (∀ before e, stem = before ++ 0x2E :: e → slash ∈ e) → Extension stem []

/-- Every path has a stem and an extension. -/
theorem exists_extension (path : Bytes) :
    ∃ stem ext, path = stem ++ ext ∧ Extension stem ext := by
  by_cases h : ∃ before e, path = before ++ 0x2E :: e ∧ slash ∉ e
  · obtain ⟨before, e, rfl, hslash⟩ := h
    by_cases hdot : (0x2E : UInt8) ∈ e
    · -- the last dot counts
      obtain ⟨after, front, heq, hafter⟩ :=
        List.eq_append_cons_of_mem (List.mem_reverse.mpr hdot)
      have he : e = front.reverse ++ 0x2E :: after.reverse := by
        rw [← List.reverse_reverse e, heq]
        simp
      subst he
      refine ⟨before ++ 0x2E :: front.reverse, 0x2E :: after.reverse, by simp, .dotted ?_ ?_⟩
      · simpa using hafter
      · simp only [List.mem_append, List.mem_cons, not_or] at hslash
        exact hslash.2.2
    · exact ⟨before, 0x2E :: e, rfl, .dotted hdot hslash⟩
  · refine ⟨path, [], by simp, .none ?_⟩
    intro before e heq
    by_contra hslash
    exact h ⟨before, e, heq, hslash⟩

/-- A stem is found again whatever its extension. -/
theorem withoutExtension_append {stem ext : Bytes} (h : Extension stem ext) :
    withoutExtension (stem ++ ext) = stem := by
  cases h with
  | @dotted e hdot hslash =>
    have hreverse : (stem ++ 0x2E :: e).reverse = e.reverse ++ 0x2E :: stem.reverse := by simp
    have hlast : (0x2E : UInt8) ∈ (e.reverse ++ 0x2E :: stem.reverse).takeWhile (· != slash) := by
      rw [List.takeWhile_append_of_pos (by simpa using fun b hb => ne_of_mem_of_not_mem hb hslash)]
      apply List.mem_append_right
      rw [List.takeWhile_cons_of_pos (by decide)]
      exact List.mem_cons_self
    have hfront : (e.reverse ++ 0x2E :: stem.reverse).dropWhile (· != 0x2E) =
        0x2E :: stem.reverse := by
      rw [List.dropWhile_append_of_pos (by simpa using fun b hb => ne_of_mem_of_not_mem hb hdot)]
      rfl
    have hcontains : ((e.reverse ++ 0x2E :: stem.reverse).takeWhile (· != slash)).reverse.contains
        0x2E = true := by
      simpa using hlast
    simp only [withoutExtension, hreverse, hcontains, hfront]
    simp
  | none hnone =>
    rw [List.append_nil, withoutExtension]
    split
    · next hlast =>
      -- a dot in the last part would be one with no slash behind it
      have hmem : (0x2E : UInt8) ∈ stem.reverse.takeWhile (· != slash) := by simpa using hlast
      obtain ⟨after, before, heq⟩ := List.append_of_mem hmem
      have hstem : stem = (stem.reverse.dropWhile (· != slash)).reverse ++ before.reverse ++
          0x2E :: after.reverse :=
        calc stem = (stem.reverse.takeWhile (· != slash) ++
              stem.reverse.dropWhile (· != slash)).reverse := by
              rw [List.takeWhile_append_dropWhile, List.reverse_reverse]
          _ = _ := by simp [heq]
      have hslash := hnone _ _ hstem
      have hpart : slash ∈ stem.reverse.takeWhile (· != slash) := by
        rw [heq]
        exact List.mem_append_left _ (List.mem_reverse.mp hslash)
      have := List.mem_takeWhile_imp hpart
      simp at this
    · rfl

theorem withoutExtension_eq_iff {path stem : Bytes} :
    withoutExtension path = stem ↔ ∃ ext, path = stem ++ ext ∧ Extension stem ext := by
  constructor
  · rintro rfl
    obtain ⟨stem, ext, rfl, hext⟩ := exists_extension path
    rw [withoutExtension_append hext]
    exact ⟨ext, rfl, hext⟩
  · rintro ⟨ext, rfl, hext⟩
    exact withoutExtension_append hext

end Path

/-! ### Runs that settle -/

/-- A file is replaced: there is room for a temporary one beside it, the path
leads to a name, and the contents are set there. -/
def FileTree.Replaces (t : FileTree) (path contents : Bytes) (t' : FileTree) : Prop :=
  (∃ made, t.createTemporary path = .ok made) ∧
    ∃ target, t.locate path = .ok (.name target false) ∧ t' = t.set target contents

namespace Script

/-- A run went well and left a wanted tree, or it failed, left the tree as it
was, and no wanted tree could be reached. -/
def Settles (t : FileTree) (Wanted : FileTree → Prop) (result : Report × FileTree) : Prop :=
  (result.1.exit = 0 ∧ Wanted result.2) ∨
    (result.1.exit ≠ 0 ∧ result.2 = t ∧ ∀ t', ¬ Wanted t')

variable {t : FileTree} {Wanted Wanted' : FileTree → Prop} {result : Report × FileTree}

theorem settles_success (out : Bytes) (h : Wanted t) :
    Settles t Wanted ((done (.success out)).run t) :=
  .inl ⟨rfl, h⟩

theorem settles_failure (out message : Bytes) (h : ∀ t', ¬ Wanted t') :
    Settles t Wanted ((done (.failure out message)).run t) :=
  .inr ⟨show (1 : UInt8) ≠ 0 by decide, rfl, h⟩

theorem Settles.congr (h : Settles t Wanted result) (hiff : ∀ t', Wanted t' ↔ Wanted' t') :
    Settles t Wanted' result := by
  rcases h with ⟨hexit, hwanted⟩ | ⟨hexit, htree, hnone⟩
  · exact .inl ⟨hexit, (hiff _).mp hwanted⟩
  · exact .inr ⟨hexit, htree, fun t' hwanted => hnone t' ((hiff t').mpr hwanted)⟩

end Script

/-! ### What is written -/

/-- What is loaded is what the decoder makes of the default settings, if that
is valid. -/
theorem Settings.loadWith_eq_ok_iff {ε : Type} {decode : Decoder ε} {invalid : Invalid → ε}
    {source : Bytes} {s : Settings} :
    loadWith decode invalid source = .ok s ↔
      decode source default = .ok s ∧ s.validate = .ok () := by
  constructor
  · intro h
    obtain ⟨s', hdecode, h⟩ := bind_eq_ok_iff.mp h
    obtain ⟨_, hvalid, h⟩ := bind_eq_ok_iff.mp h
    cases h
    exact ⟨hdecode, mapError_eq_ok_iff.mp hvalid⟩
  · rintro ⟨hdecode, hvalid⟩
    rw [loadWith, hdecode]
    show (s.validate.mapError invalid >>= fun _ => pure s) = .ok s
    rw [hvalid]
    rfl

/-- A linked image fits at its origin. -/
theorem Program.link_fits {p : Program} {origin : UInt16} {externs : SymbolMap} {image : Bytes}
    (h : p.link origin externs = .ok image) : origin.toNat + image.length ≤ addressSpace := by
  obtain ⟨raw, hraw, hfit, -⟩ := Program.link_eq_ok_iff.mp h
  rwa [Program.length_image hraw h]

theorem Elf.Header.length_toBytes_ofEntry (entry : UInt32) :
    (Elf.Header.ofEntry entry).toBytes.length = 52 := by
  rw [← Elf.Header.layout_eq_toBytes]
  exact Elf.Header.length_layout rfl

namespace Command.Asm65

open Script

variable {decode : Settings.Decoder Bytes} {a : Arguments} {s s' : Settings} {t t' : FileTree}

/-! ### Stages -/

/-- The last stage replaces the output file, or nothing. -/
theorem settles_finish (a : Arguments) (s : Settings) (source : Bytes) (built : Built)
    (t : FileTree) :
    Settles t (t.Replaces (outputPath s source) (outputChunks s built.image).flatten)
      ((finish a s source built).run t) := by
  have hiff : ∀ t', t.replace (outputPath s source) (outputChunks s built.image)
      (.ok () : Except Empty Unit) = (.ok (), t') ↔
        t.Replaces (outputPath s source) (outputChunks s built.image).flatten t' := by
    intro t'
    rw [FileTree.replace_eq_ok_iff]
    simp [FileTree.Replaces]
  simp only [finish, run]
  rcases h : t.replace (outputPath s source) (outputChunks s built.image)
    (.ok () : Except Empty Unit) with ⟨e | _, t'⟩
  · -- nothing was replaced, so nothing could be
    obtain rfl := FileTree.replace_eq_error h
    have hnone : ∀ t'', ¬ t'.Replaces (outputPath s source)
        (outputChunks s built.image).flatten t'' := by
      intro t'' hreplaces
      rw [(hiff t'').mpr hreplaces] at h
      cases h
    cases e with
    | system e => exact settles_failure _ _ hnone
    | writer e => cases e
  · exact .inl ⟨rfl, (hiff t').mp h⟩

/-- What is built is the linked image: a listing never fails. -/
theorem buildImage_eq_ok_iff {path text image : Bytes} :
    (∃ built, buildImage a s path text = .ok built ∧ built.image = image) ↔
      ∃ p, assemble text = .ok p ∧
        p.link s.origin (Settings.externMap s.externs) = .ok image := by
  rcases hassemble : assemble text with e | p
  · simp [buildImage, hassemble]
  · rcases hlink : p.link s.origin (Settings.externMap s.externs) with e | image'
    · simp [buildImage, hassemble, hlink]
    · have hlisting : ∃ text, listing s p image' = .ok text :=
        ⟨_, disassemble_eq_printed (Program.link_fits hlink) _ true⟩
      obtain ⟨printed, hprinted⟩ := hlisting
      simp only [buildImage, hassemble, hlink, hprinted]
      split
      · simp [hlink]
      · simp [hlink]

/-- What the settings make of the source file. -/
def Makes (a : Arguments) (s : Settings) (t t' : FileTree) : Prop :=
  ∃ text p image, t.read (a.positional 0) = .ok text ∧ assemble text = .ok p ∧
    p.link s.origin (Settings.externMap s.externs) = .ok image ∧
    t.Replaces (outputPath s (a.positional 0)) (outputChunks s image).flatten t'

theorem settles_build (a : Arguments) (s : Settings) (t : FileTree) :
    Settles t (Makes a s t) ((build a s).run t) := by
  rcases hread : t.read (a.positional 0) with e | text
  · simp only [build, run, hread]
    apply settles_failure
    rintro t' ⟨text, p, image, htext, -⟩
    rw [hread] at htext
    cases htext
  · rcases hbuilt : buildImage a s (a.positional 0) text with ⟨printed, message⟩ | built
    · simp only [build, run, hread, hbuilt]
      apply settles_failure
      rintro t' ⟨text', p, image, htext, hassemble, hlink, -⟩
      rw [hread] at htext
      cases htext
      obtain ⟨built, hok, -⟩ := buildImage_eq_ok_iff.mpr ⟨p, hassemble, hlink⟩
      rw [hbuilt] at hok
      cases hok
    · simp only [build, run, hread, hbuilt]
      obtain ⟨p, hassemble, hlink⟩ := buildImage_eq_ok_iff.mp ⟨built, hbuilt, rfl⟩
      apply (settles_finish a s (a.positional 0) built t).congr
      intro t'
      constructor
      · intro hreplaces
        exact ⟨text, p, built.image, hread, hassemble, hlink, hreplaces⟩
      · rintro ⟨text', p', image', htext, hassemble', hlink', hreplaces⟩
        rw [hread] at htext
        cases htext
        rw [hassemble] at hassemble'
        cases hassemble'
        rw [hlink] at hlink'
        cases hlink'
        exact hreplaces

theorem settles_withSettings (a : Arguments) (t : FileTree) (found : Except Bytes Settings) :
    Settles t (fun t' => ∃ base s, found = .ok base ∧ override a base = .ok s ∧ Makes a s t t')
      ((withSettings a found).run t) := by
  rcases found with message | base
  · apply settles_failure
    rintro t' ⟨_, _, h, -⟩
    cases h
  · rcases hoverride : override a base with message | s
    · simp only [withSettings, hoverride]
      apply settles_failure
      rintro t' ⟨_, s, hbase, hs, -⟩
      cases hbase
      rw [hoverride] at hs
      cases hs
    · simp only [withSettings, hoverride]
      apply (settles_build a s t).congr
      intro t'
      constructor
      · intro hmakes
        exact ⟨base, s, rfl, hoverride, hmakes⟩
      · rintro ⟨_, s', hbase, hs', hmakes⟩
        cases hbase
        rw [hoverride] at hs'
        cases hs'
        exact hmakes

/-- The settings that options start from: those in the file that is named,
decoded on top of the default ones and valid, or the default ones. -/
def Configures (decode : Settings.Decoder Bytes) (a : Arguments) (t : FileTree)
    (base : Settings) : Prop :=
  (a.text "config" = [] ∧ base = Settings.default) ∨
    (a.text "config" ≠ [] ∧ ∃ contents, t.read (a.text "config") = .ok contents ∧
      decode contents Settings.default = .ok base ∧ base.validate = .ok ())

theorem settingsIn_eq_ok_iff {path : Bytes} {found : Except SystemError Bytes} :
    settingsIn decode path found = .ok s ↔ ∃ contents, found = .ok contents ∧
      decode contents Settings.default = .ok s ∧ s.validate = .ok () := by
  rcases found with e | contents
  · simp [settingsIn]
  · rw [settingsIn, mapError_eq_ok_iff, Settings.loadWith_eq_ok_iff]
    simp

theorem settles_command (decode : Settings.Decoder Bytes) (a : Arguments) (t : FileTree) :
    Settles t
      (fun t' => ∃ base s, Configures decode a t base ∧ override a base = .ok s ∧ Makes a s t t')
      ((command decode a).run t) := by
  by_cases hconfig : a.text "config" = []
  · rw [command, if_pos (by simpa using hconfig)]
    apply (settles_withSettings a t _).congr
    intro t'
    constructor
    · rintro ⟨base, s, hbase, hs, hmakes⟩
      cases hbase
      exact ⟨_, s, .inl ⟨hconfig, rfl⟩, hs, hmakes⟩
    · rintro ⟨base, s, ⟨-, rfl⟩ | ⟨hne, -⟩, hs, hmakes⟩
      · exact ⟨_, s, rfl, hs, hmakes⟩
      · exact absurd hconfig hne
  · rw [command, if_neg (by simpa using hconfig)]
    apply (settles_withSettings a t _).congr
    intro t'
    constructor
    · rintro ⟨base, s, hbase, hs, hmakes⟩
      exact ⟨base, s, .inr ⟨hconfig, settingsIn_eq_ok_iff.mp hbase⟩, hs, hmakes⟩
    · rintro ⟨base, s, ⟨hnil, -⟩ | ⟨-, hbase⟩, hs, hmakes⟩
      · exact absurd hnil hconfig
      · exact ⟨base, s, settingsIn_eq_ok_iff.mpr hbase, hs, hmakes⟩

/-- **The command settles**: it shows its help, or does all its stages, or
touches nothing. -/
theorem settles_dispatch (decode : Settings.Decoder Bytes) (help : Bytes)
    (request : Except Bytes Request) (t : FileTree) :
    Settles t
      (fun t' => (request = .ok .help ∧ t' = t) ∨
        ∃ a base s, request = .ok (.run a) ∧ Configures decode a t base ∧
          override a base = .ok s ∧ Makes a s t t')
      ((dispatch help (command decode) request).run t) := by
  rcases request with message | - | a
  · apply settles_failure
    rintro t' (⟨h, -⟩ | ⟨_, _, _, h, -⟩) <;> cases h
  · exact settles_success _ (.inl ⟨rfl, rfl⟩)
  · apply (settles_command decode a t).congr
    intro t'
    constructor
    · rintro ⟨base, s, hstages⟩
      exact .inr ⟨a, base, s, rfl, hstages⟩
    · rintro (⟨h, -⟩ | ⟨a', base, s, h, hstages⟩) <;> cases h
      exact ⟨base, s, hstages⟩

/-! ### Builds -/

/-- What options make of settings. -/
theorem override_eq_ok_iff :
    override a s = .ok s' ↔
      s'.output = (if a.text "output" = [] then s.output else a.text "output") ∧
      s'.format = (if a.text "format" = [] then s.format else a.text "format") ∧
      (if a.text "origin" = [] then s'.origin = s.origin
        else parseAddress (a.text "origin") = .ok s'.origin) ∧
      s'.externs = s.externs ∧ s'.validate = .ok () := by
  -- an option that is not given leaves its field, and every option the others
  have hif : ∀ (text : Bytes) (s s' : Settings), (if text = [] then s else s') =
      ⟨if text = [] then s.origin else s'.origin, if text = [] then s.format else s'.format,
        if text = [] then s.output else s'.output,
        if text = [] then s.externs else s'.externs⟩ := by
    intro text s s'
    split <;> rfl
  obtain ⟨origin', format', output', externs'⟩ := s'
  simp only [override, List.isEmpty_iff, hif, ite_self]
  split
  · constructor
    · intro h
      obtain ⟨_, hset, h⟩ := bind_eq_ok_iff.mp h
      cases hset
      split at h
      · next hvalid =>
        cases h
        exact ⟨rfl, rfl, rfl, rfl, hvalid⟩
      · cases h
    · rintro ⟨rfl, rfl, rfl, rfl, hvalid⟩
      simp only [pure_bind, hvalid]
      rfl
  · rcases parseAddress (a.text "origin") with e | origin
    · constructor
      · intro h
        cases h
      · rintro ⟨-, -, h, -⟩
        cases h
    · constructor
      · intro h
        obtain ⟨_, hset, h⟩ := bind_eq_ok_iff.mp h
        cases hset
        split at h
        · next hvalid =>
          cases h
          exact ⟨rfl, rfl, rfl, rfl, hvalid⟩
        · cases h
      · rintro ⟨rfl, rfl, horigin, rfl, hvalid⟩
        cases horigin
        simp only [pure_bind, hvalid]
        rfl

/-- What a build goes through. -/
structure Build where
  /-- The settings that options start from. -/
  base : Settings
  settings : Settings
  text : Bytes
  program : Program
  image : Bytes
  /-- The output file, as a path and as a place. -/
  path : Bytes
  target : Place
  contents : Bytes

/-- A build of a tree that ends in another one. -/
structure Build.Completes (decode : Settings.Decoder Bytes) (b : Build) (a : Arguments)
    (t t' : FileTree) : Prop where
  configures : Configures decode a t b.base
  origin : if a.text "origin" = [] then b.settings.origin = b.base.origin
    else parseAddress (a.text "origin") = .ok b.settings.origin
  format : b.settings.format = if a.text "format" = [] then b.base.format else a.text "format"
  output : b.settings.output = if a.text "output" = [] then b.base.output else a.text "output"
  externs : b.settings.externs = b.base.externs
  valid : b.settings.validate = .ok ()
  source : t.read (a.positional 0) = .ok b.text
  assembled : assemble b.text = .ok b.program
  linked : b.program.link b.settings.origin (Settings.externMap b.settings.externs) = .ok b.image
  /-- The path is the option's, or else that of the settings, or else the
  source file with the format as its extension. -/
  path : (a.text "output" ≠ [] ∧ b.path = a.text "output") ∨
    (a.text "output" = [] ∧ b.base.output ≠ [] ∧ b.path = b.base.output) ∨
    (a.text "output" = [] ∧ b.base.output = [] ∧ ∃ stem ext, a.positional 0 = stem ++ ext ∧
      Path.Extension stem ext ∧ b.path = stem ++ 0x2E :: b.settings.format)
  /-- The contents are the image, behind a header of 52 bytes in one of the
  formats. -/
  contents : (b.settings.format = Settings.bin ∧ b.contents = b.image) ∨
    (b.settings.format = Settings.elf ∧ ∃ header : Elf.Header,
      header = Elf.Header.ofEntry b.settings.origin.toUInt32 ∧
      header.entry.toNat = b.settings.origin.toNat ∧ header.toBytes.length = 52 ∧
      b.contents = header.toBytes ++ b.image)
  room : ∃ made, t.createTemporary b.path = .ok made
  located : t.locate b.path = .ok (.name b.target false)
  written : t'.read b.path = .ok b.contents
  /-- There is the output file, and every other one is as it was. -/
  files : ∀ place, t'.file? place = if place = b.target then some b.contents else t.file? place
  directories : t'.directories = t.directories
  working : t'.working = t.working

theorem outputPath_eq_iff {source path : Bytes} :
    outputPath s source = path ↔ (s.output ≠ [] ∧ path = s.output) ∨
      (s.output = [] ∧ ∃ stem ext, source = stem ++ ext ∧ Path.Extension stem ext ∧
        path = stem ++ 0x2E :: s.format) := by
  by_cases h : s.output = []
  · rw [outputPath, if_pos (by simpa using h)]
    simp only [h, ne_eq, not_true_eq_false, false_and, true_and, false_or]
    constructor
    · rintro rfl
      obtain ⟨ext, hsource, hext⟩ := Path.withoutExtension_eq_iff.mp (Eq.refl _)
      exact ⟨_, ext, hsource, hext, rfl⟩
    · rintro ⟨stem, ext, hsource, hext, rfl⟩
      rw [Path.withoutExtension_eq_iff.mpr ⟨ext, hsource, hext⟩]
  · rw [outputPath, if_neg (by simpa using h)]
    simp [h, eq_comm]

/-- What the chunks are in either format. -/
theorem flatten_outputChunks (hs : s.validate = .ok ()) (image : Bytes) :
    (s.format = Settings.bin ∧ (outputChunks s image).flatten = image) ∨
      (s.format = Settings.elf ∧ ∃ header : Elf.Header,
        header = Elf.Header.ofEntry s.origin.toUInt32 ∧
        header.entry.toNat = s.origin.toNat ∧ header.toBytes.length = 52 ∧
        (outputChunks s image).flatten = header.toBytes ++ image) := by
  rcases (Settings.validate_eq_ok_iff.mp hs).1 with hformat | hformat
  · refine .inr ⟨hformat, _, rfl, UInt16.toNat_toUInt32 _, Elf.Header.length_toBytes_ofEntry _, ?_⟩
    rw [outputChunks, hformat, if_neg (by decide)]
    simp
  · refine .inl ⟨hformat, ?_⟩
    rw [outputChunks, hformat, if_pos (by decide)]
    simp

/-- A run through all stages is a build. -/
theorem exists_completes {base : Settings} (hbase : Configures decode a t base)
    (hs : override a base = .ok s) (h : Makes a s t t') :
    ∃ b : Build, b.Completes decode a t t' := by
  obtain ⟨houtput, hformat, horigin, hexterns, hvalid⟩ := override_eq_ok_iff.mp hs
  obtain ⟨text, p, image, hread, hassemble, hlink, hroom, target, hlocate, rfl⟩ := h
  refine ⟨⟨base, s, text, p, image, outputPath s (a.positional 0), target,
    (outputChunks s image).flatten⟩, ?_⟩
  refine ⟨hbase, horigin, hformat, houtput, hexterns, hvalid, hread, hassemble, hlink, ?_,
    flatten_outputChunks hvalid image, hroom, hlocate, FileTree.read_set hlocate, ?_, rfl, rfl⟩
  · have hpath := outputPath_eq_iff.mp (Eq.refl (outputPath s (a.positional 0)))
    rw [houtput] at hpath
    by_cases hoption : a.text "output" = []
    · rw [if_pos hoption] at hpath
      rcases hpath with ⟨hne, hpath⟩ | ⟨hnil, hpath⟩
      · exact .inr (.inl ⟨hoption, hne, hpath⟩)
      · exact .inr (.inr ⟨hoption, hnil, hpath⟩)
    · rw [if_neg hoption] at hpath
      rcases hpath with ⟨hne, hpath⟩ | ⟨hnil, -⟩
      · exact .inl ⟨hne, hpath⟩
      · exact absurd hnil hoption
  · intro place
    split
    · next heq =>
      rw [heq]
      exact FileTree.file?_set t target _
    · next hne => exact FileTree.file?_set_of_ne hne

/-- A build is a run through all stages. -/
theorem Build.Completes.exists_makes {b : Build} (h : b.Completes decode a t t') :
    override a b.base = .ok b.settings ∧ ∃ t'', Makes a b.settings t t'' := by
  refine ⟨override_eq_ok_iff.mpr ⟨h.output, h.format, h.origin, h.externs, h.valid⟩, ?_⟩
  have hpath : outputPath b.settings (a.positional 0) = b.path := by
    apply outputPath_eq_iff.mpr
    rw [h.output]
    rcases h.path with ⟨hne, hpath⟩ | ⟨hnil, hne, hpath⟩ | ⟨hnil, hnil', hpath⟩
    · rw [if_neg hne]
      exact .inl ⟨hne, hpath⟩
    · rw [if_pos hnil]
      exact .inl ⟨hne, hpath⟩
    · rw [if_pos hnil]
      exact .inr ⟨hnil', hpath⟩
  refine ⟨t.set b.target (outputChunks b.settings b.image).flatten, b.text, b.program, b.image,
    h.source, h.assembled, h.linked, ?_⟩
  rw [hpath]
  exact ⟨h.room, b.target, h.located, rfl⟩

/-- **No partial output.**  On every tree, for every way to decode settings files
and whatever the options ask for: a run that fails leaves the tree as it was,
and a run goes well exactly if it shows the help and leaves the tree as it was,
or completes a build. -/
theorem run_whole_or_untouched (decode : Settings.Decoder Bytes) (help : Bytes)
    (request : Except Bytes Request) (t : FileTree) :
    (((dispatch help (command decode) request).run t).1.exit ≠ 0 →
      ((dispatch help (command decode) request).run t).2 = t) ∧
    (((dispatch help (command decode) request).run t).1.exit = 0 ↔
      (request = .ok .help ∧ ((dispatch help (command decode) request).run t).2 = t) ∨
      ∃ a, ∃ b : Build, request = .ok (.run a) ∧
        b.Completes decode a t ((dispatch help (command decode) request).run t).2) := by
  rcases settles_dispatch decode help request t with ⟨hexit, hwanted⟩ | ⟨hexit, htree, hnone⟩
  · refine ⟨fun hne => absurd hexit hne, fun _ => ?_, fun _ => hexit⟩
    rcases hwanted with hhelp | ⟨a, base, s, ha, hbase, hs, hmakes⟩
    · exact .inl hhelp
    · obtain ⟨b, hb⟩ := exists_completes hbase hs hmakes
      exact .inr ⟨a, b, ha, hb⟩
  · refine ⟨fun _ => htree, fun hzero => absurd hzero hexit, ?_⟩
    rintro (⟨hhelp, -⟩ | ⟨a, b, ha, hb⟩)
    · exact absurd (.inl ⟨hhelp, rfl⟩) (hnone t)
    · obtain ⟨hs, t'', hmakes⟩ := hb.exists_makes
      exact absurd (.inr ⟨a, b.base, b.settings, ha, hb.configures, hs, hmakes⟩) (hnone t'')

/-- A settings file with an extern. -/
def portSettings : Bytes :=
  ascii "format = \"bin\"\norigin = \"$C000\"\noutput = \"out/prog\"\n" ++
    ascii "[[extern]]\nname = \"port\"\nvalue = 5\n"

/-- A source file, a settings file, and an output file from an earlier run. -/
def beforeBuild : FileTree :=
  ⟨[([ascii "a.s"], ascii "LDA #port"), ([ascii "b.toml"], portSettings),
    ([ascii "out", ascii "prog"], [7])], [[ascii "out"]], []⟩

/-- The same files with another output. -/
def afterBuild : FileTree :=
  beforeBuild.set [ascii "out", ascii "prog"]
    ((Elf.Header.ofEntry 0xD000).toBytes ++ [0xA9, 0x05])

/-- Options that name the settings file and override its format and origin. -/
def overriding : Arguments :=
  ⟨[], [("config", ascii "b.toml"), ("format", ascii "elf"), ("origin", ascii "$D000")],
    [ascii "a.s"]⟩

/-- The output goes where the settings file says, with the extern that it
declares, in the format and at the origin of the options. -/
theorem run_whole_or_untouched_configured :
    ∃ b : Build, b.Completes Settings.decodeText overriding beforeBuild afterBuild ∧
      b.base = ⟨0xC000, Settings.bin, ascii "out/prog", [⟨ascii "port", 5⟩]⟩ ∧
      b.path = ascii "out/prog" ∧
      b.contents = (Elf.Header.ofEntry 0xD000).toBytes ++ [0xA9, 0x05] := by
  have hread : beforeBuild.read (ascii "b.toml") = .ok portSettings := by decide +kernel
  have hdecode : Settings.decodeText portSettings Settings.default =
      .ok ⟨0xC000, Settings.bin, ascii "out/prog", [⟨ascii "port", 5⟩]⟩ := by
    decide +kernel
  have hrun : (dispatch [] (command Settings.decodeText) (.ok (.run overriding))).run beforeBuild =
      (.success [], afterBuild) := by
    decide +kernel
  have h := run_whole_or_untouched Settings.decodeText [] (.ok (.run overriding)) beforeBuild
  rw [hrun] at h
  rcases h.2.mp rfl with ⟨hhelp, -⟩ | ⟨a, b, ha, hb⟩
  · cases hhelp
  cases ha
  have hbase : b.base = ⟨0xC000, Settings.bin, ascii "out/prog", [⟨ascii "port", 5⟩]⟩ := by
    rcases hb.configures with ⟨hnone, -⟩ | ⟨-, contents, hcontents, hbase, -⟩
    · exact absurd hnone (by decide)
    · cases hread.symm.trans hcontents
      exact (Except.ok.inj (hdecode.symm.trans hbase)).symm
  have hpath : b.path = ascii "out/prog" := by
    rcases hb.path with ⟨hoption, -⟩ | ⟨-, -, hpath⟩ | ⟨-, hnone, -⟩
    · exact absurd rfl hoption
    · rw [hpath, hbase]
    · rw [hbase] at hnone
      exact absurd hnone (by decide)
  have hcontents := hb.written
  rw [hpath] at hcontents
  exact ⟨b, hb, hbase, hpath, (Except.ok.inj hcontents).symm⟩

end Command.Asm65

end Mos6502
