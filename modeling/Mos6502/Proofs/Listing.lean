/-
Mos6502/Proofs/Listing.lean

A listing read as a table.  `ListingLine.read?` takes a line of text apart by
its columns and knows nothing of how it was made:

* a line that ends with a colon declares a label;
* any other line has an address in its first four columns, two digits for each
  byte of an instruction in nine further ones, and source text from column
  fifteen on;
* if that text is a data directive, the bytes are those of its operands, and
  otherwise the text is an instruction with a mnemonic and a mode.

Every line of a disassembly is read as what it shows (`Line.shown`), so the
facts about where lines stand are facts about the text
(`disassemble_listing_lossless`): the listing gives back the image, no byte is
lost or shown twice, and the bytes of an instruction line are the instruction
that its text names.
-/
import Mos6502.Proofs.Tiling

namespace Mos6502

/-! ### Reading a listing -/

/-- A line of a listing as its text shows it. -/
inductive ListingLine where
  /-- The declaration of a label. -/
  | declaration (name : Bytes)
  /-- An instruction: address and bytes from the margin, mnemonic and mode from
  the source text. -/
  | instruction (address : UInt16) (bytes : Bytes) (mnemonic : Mnemonic) (mode : Mode)
  /-- Data: the address from the margin, the bytes from the directive. -/
  | data (address : UInt16) (bytes : Bytes)
deriving DecidableEq, Repr

/-- The byte of a numeral of two digits. -/
def readByte? (s : Bytes) : Option UInt8 :=
  if s.length = 2 then (Numeral.readHex? s).map Nat.toUInt8 else none

/-- The word of a numeral of four digits. -/
def readWord? (s : Bytes) : Option UInt16 :=
  if s.length = 4 then (Numeral.readHex? s).map Nat.toUInt16 else none

/-- The byte of a literal of two digits. -/
def readByteLiteral? : Bytes → Option UInt8
  | 0x24 :: digits => readByte? digits
  | _ => none

/-- The bytes in the columns of a margin: numerals with a space between
them. -/
def readColumns? (s : Bytes) : Option Bytes :=
  ((Text.dropTrailingSpaces s).splitOn 0x20).mapM readByte?

/-- What a data directive starts with, indented. -/
def dataDirective : Bytes := ascii "    .byte "

/-- The bytes of a data directive: literals with a comma between them. -/
def readDirective? (source : Bytes) : Option Bytes :=
  ((source.drop dataDirective.length).splitOn 0x2C).mapM readByteLiteral?

/-- Mnemonic and mode of an instruction in source text. -/
def readInstruction? (s : Bytes) : Option (Mnemonic × Mode) :=
  match parseLine 0 s with
  | .ok (some node) => (Expression.ofNode node).toOption.map fun e => (e.mnemonic, e.mode)
  | _ => none

namespace ListingLine

/-- Reads a line from the columns of its margin and its source text. -/
def ofColumns? (address columns source : Bytes) : Option ListingLine :=
  (readWord? address).bind fun address =>
    if dataDirective <+: source then (readDirective? source).map (.data address)
    else
      (readColumns? columns).bind fun bytes =>
        (readInstruction? source).map fun (mnemonic, mode) =>
          .instruction address bytes mnemonic mode

/-- Reads one line. -/
def read? (line : Bytes) : Option ListingLine :=
  if line.getLast? = some 0x3A then some (.declaration line.dropLast)
  else ofColumns? (line.take 4) ((line.drop 6).take 9) (line.drop 15)

/-- The bytes on a line. -/
def bytes : ListingLine → Bytes
  | .declaration _ => []
  | .instruction _ bytes _ _ | .data _ bytes => bytes

/-- The address on a line; a declaration has none. -/
def address? : ListingLine → Option UInt16
  | .declaration _ => none
  | .instruction address _ _ _ | .data address _ => some address

end ListingLine

/-- Reads a listing, all of it or nothing. -/
def readListing? (text : Bytes) : Option (List ListingLine) :=
  ((lines text).filter fun line => !line.isEmpty).mapM ListingLine.read?

/-- What a line of a disassembly shows. -/
def Line.shown : Line → ListingLine
  | .label name => .declaration name
  | .code i => .instruction i.address i.bytes i.mnemonic i.mode
  | .data address bytes => .data address bytes

@[simp] theorem Line.bytes_shown (line : Line) : line.shown.bytes = line.bytes := by
  cases line <;> rfl

/-! ### Numerals in columns -/

theorem readByte?_byte (b : UInt8) : readByte? (Numeral.byte b) = some b := by
  have hb : b.toNat % 16 ^ 2 = b.toNat := Nat.mod_eq_of_lt b.toNat_lt
  rw [readByte?, if_pos (Numeral.length_byte b), Numeral.byte,
    Numeral.readHex?_hexPadded (by decide), hb, Option.map_some]
  exact congrArg some UInt8.ofNat_toNat

theorem readWord?_word (w : UInt16) : readWord? (Numeral.word w) = some w := by
  rw [readWord?, if_pos (Numeral.length_word w), Numeral.readHex?_word, Option.map_some]
  exact congrArg some UInt16.ofNat_toNat

theorem mapM_map_eq_some {α β γ : Type} {f : α → Option β} {g : γ → α} {k : γ → β} {l : List γ}
    (h : ∀ c ∈ l, f (g c) = some (k c)) : (l.map g).mapM f = some (l.map k) := by
  induction l with
  | nil => rfl
  | cons c rest ih =>
    rw [List.map_cons, List.mapM_cons, h c (by simp), ih fun c' hc' => h c' (by simp [hc'])]
    rfl

theorem mapM_readByte? (bytes : Bytes) : (bytes.map Numeral.byte).mapM readByte? = some bytes := by
  rw [mapM_map_eq_some fun b _ => readByte?_byte b, List.map_id']

namespace Text

theorem joinWith_eq_intercalate (separator : Bytes) (l : List Bytes) :
    joinWith separator l = separator.intercalate l := by
  induction l with
  | nil => rfl
  | cons first rest ih =>
    rcases rest with - | ⟨second, rest⟩
    · simp [joinWith]
    · simp [joinWith, ← ih]

/-- What was joined is split again. -/
theorem splitOn_joinWith {separator : UInt8} {l : List Bytes} (hl : ∀ s ∈ l, separator ∉ s)
    (hne : l ≠ []) : (joinWith [separator] l).splitOn separator = l := by
  rw [joinWith_eq_intercalate]
  exact List.splitOn_intercalate separator hl hne

theorem dropTrailingSpaces_append_replicate (s : Bytes) (n : Nat) :
    dropTrailingSpaces (s ++ List.replicate n 0x20) = dropTrailingSpaces s := by
  have hspaces : ∀ b ∈ List.replicate n (0x20 : UInt8), (b == 0x20) = true := by
    intro b hb
    rw [List.eq_of_mem_replicate hb]
    rfl
  rw [dropTrailingSpaces, List.reverse_append, List.reverse_replicate,
    List.dropWhile_append_of_pos hspaces]
  rfl

end Text

theorem readColumns?_padRight {bytes : Bytes} (hne : bytes ≠ []) (width : Nat) :
    readColumns? (Text.padRight width (Text.joinWith [0x20] (bytes.map Numeral.byte))) =
      some bytes := by
  have hspace : ∀ s ∈ bytes.map Numeral.byte, (0x20 : UInt8) ∉ s := by
    intro s hs hmem
    obtain ⟨b, -, rfl⟩ := List.mem_map.mp hs
    cases Numeral.isHexDigit_of_mem_byte hmem
  have hinked : Text.Inked (Text.joinWith [0x20] (bytes.map Numeral.byte)) := by
    apply Text.inked_joinWith
    intro s hs
    obtain ⟨b, -, rfl⟩ := List.mem_map.mp hs
    exact Numeral.byte_inked b
  rw [readColumns?, Text.padRight, Text.dropTrailingSpaces_append_replicate,
    Text.dropTrailingSpaces_of_inked hinked,
    Text.splitOn_joinWith hspace (by simpa using hne), mapM_readByte?]

/-! ### Margins -/

theorem length_joinWith_byte (bytes : Bytes) :
    (Text.joinWith [0x20] (bytes.map Numeral.byte)).length = 3 * bytes.length - 1 := by
  rcases bytes with - | ⟨b, rest⟩
  · rfl
  · have hrest : ((rest.map Numeral.byte).flatMap fun s => [0x20] ++ s).length =
        3 * rest.length := by
      induction rest with
      | nil => rfl
      | cons c rest ih =>
        simp only [List.map_cons, List.flatMap_cons, List.length_append, List.length_cons,
          List.length_nil, Numeral.length_byte] at ih ⊢
        omega
    rw [List.map_cons, Text.joinWith, List.length_append, Numeral.length_byte, hrest,
      List.length_cons]
    omega

/-- Four digits for an address and the gap behind them. -/
theorem length_addressColumns (address : UInt16) :
    (Numeral.word address ++ ascii "  ").length = 6 := by
  rw [List.length_append, Numeral.length_word]
  rfl

/-- The columns of an instruction are filled up to nine. -/
theorem length_byteColumns {bytes : Bytes} (hbytes : bytes.length ≤ 3) :
    (Text.padRight 9 (Text.joinWith [0x20] (bytes.map Numeral.byte))).length = 9 := by
  rw [Text.padRight, List.length_append, List.length_replicate, length_joinWith_byte]
  omega

theorem length_margin (address : UInt16) {bytes : Bytes} (hbytes : bytes.length ≤ 3) :
    (margin address bytes).length = 15 := by
  rw [margin, List.length_append, length_addressColumns, length_byteColumns hbytes]

/-- The columns of a margin with the source text after it. -/
theorem margin_columns (address : UInt16) {bytes : Bytes} (hbytes : bytes.length ≤ 3)
    (source : Bytes) :
    (margin address bytes ++ source).take 4 = Numeral.word address ∧
      ((margin address bytes ++ source).drop 6).take 9 =
        Text.padRight 9 (Text.joinWith [0x20] (bytes.map Numeral.byte)) ∧
      (margin address bytes ++ source).drop 15 = source := by
  refine ⟨?_, ?_, ?_⟩
  · rw [margin, List.append_assoc, List.append_assoc, List.take_left' (Numeral.length_word address)]
  · rw [margin, List.append_assoc, List.drop_left' (length_addressColumns address),
      List.take_left' (length_byteColumns hbytes)]
  · rw [List.drop_left' (length_margin address hbytes)]

/-- A margin holds digits and spaces only. -/
theorem margin_plain (address : UInt16) (bytes : Bytes) :
    ∀ c ∈ margin address bytes, c = 0x20 ∨ Byte.isPlain c = true := by
  intro c hc
  rcases List.mem_append.mp hc with hc | hc
  · rcases List.mem_append.mp hc with hc | hc
    · have hword : ∀ b ∈ Numeral.word address, Byte.isNamePart b = true :=
        Numeral.forall_mem_hexPadded Numeral.isNamePart_upperDigit 4 address.toNat
      exact .inr (Byte.isPlain_of_isNamePart (hword c hc))
    · have hspaces : ∀ c ∈ ascii "  ", c = 0x20 := by decide +kernel
      exact .inl (hspaces c hc)
  · rcases List.mem_append.mp hc with hc | hc
    · rcases Text.mem_joinWith hc with hc | ⟨s, hs, hc⟩
      · exact .inl (List.mem_singleton.mp hc)
      · obtain ⟨b, -, rfl⟩ := List.mem_map.mp hs
        exact .inr (Byte.isPlain_of_isHexDigit (Numeral.isHexDigit_of_mem_byte hc))
    · exact .inl (List.eq_of_mem_replicate hc)

/-! ### Lines -/

/-- Text of plain bytes and spaces ends with no colon and has no line feed. -/
theorem not_mem_of_plain {s : Bytes} (hs : ∀ c ∈ s, c = 0x20 ∨ Byte.isPlain c = true) {c : UInt8}
    (hspace : c ≠ 0x20) (hc : Byte.isPlain c = false) : c ∉ s := by
  intro hmem
  rcases hs c hmem with h | h
  · exact hspace h
  · rw [hc] at h
    cases h

/-- A line with a margin is read by its columns. -/
theorem read?_margin (address : UInt16) {bytes source : Bytes} (hbytes : bytes.length ≤ 3)
    (hsource : ∀ c ∈ source, c = 0x20 ∨ Byte.isPlain c = true) :
    ListingLine.read? (margin address bytes ++ source) =
      ListingLine.ofColumns? (Numeral.word address)
        (Text.padRight 9 (Text.joinWith [0x20] (bytes.map Numeral.byte))) source := by
  have hplain : ∀ c ∈ margin address bytes ++ source, c = 0x20 ∨ Byte.isPlain c = true := by
    intro c hc
    rcases List.mem_append.mp hc with hc | hc
    · exact margin_plain address bytes c hc
    · exact hsource c hc
  have hcolon : (margin address bytes ++ source).getLast? ≠ some 0x3A := fun hlast =>
    not_mem_of_plain hplain (by decide) rfl (List.mem_of_getLast? hlast)
  obtain ⟨haddress, hcolumns, hrest⟩ := margin_columns address hbytes source
  rw [ListingLine.read?, if_neg hcolon, haddress, hcolumns, hrest]

/-- The operands of a data directive are its bytes. -/
theorem readDirective?_data {bytes : Bytes} (hne : bytes ≠ []) (labelAt? : UInt16 → Option Bytes)
    (x : UInt16) : readDirective? ((Line.data x bytes).plainText labelAt?) = some bytes := by
  have hcomma : ∀ s ∈ bytes.map fun b => 0x24 :: Numeral.byte b, (0x2C : UInt8) ∉ s := by
    intro s hs hmem
    obtain ⟨b, -, rfl⟩ := List.mem_map.mp hs
    rcases List.mem_cons.mp hmem with heq | hmem
    · cases heq
    · cases Numeral.isHexDigit_of_mem_byte hmem
  have hliteral : ∀ b ∈ bytes, readByteLiteral? (0x24 :: Numeral.byte b) = some b := fun b _ =>
    readByte?_byte b
  show (((dataDirective ++ Text.joinWith [0x2C] (bytes.map fun b => 0x24 :: Numeral.byte b)).drop
    dataDirective.length).splitOn 0x2C).mapM readByteLiteral? = some bytes
  rw [List.drop_left, Text.splitOn_joinWith hcomma (by simpa using hne), mapM_map_eq_some hliteral,
    List.map_id']

/-- A line of a listing as its text, without the line feed. -/
def Line.listed (labelAt? : UInt16 → Option Bytes) (line : Line) : Bytes :=
  line.marginText ++ line.plainText labelAt?

namespace Analysis

variable {a : Analysis} {code : Bytes} {line : Line}

/-- The text of a code line holds plain bytes and spaces only. -/
theorem Readable.plainText_code (hid : a.Readable) (hdec : a.Decodes code) {o : Nat}
    {i : Instruction} (hcode : a.codeAt? o = some i) :
    ∀ c ∈ (Line.code i).plainText a.labelAt?, c = 0x20 ∨ Byte.isPlain c = true := by
  obtain ⟨hsup, hw⟩ := Instruction.sourceValue_written (hdec o i hcode) hid
  rw [Line.plainText_code hsup hw]
  intro c hc
  rcases List.mem_append.mp hc with hc | hc
  · exact .inl (List.eq_of_mem_replicate hc)
  · exact (sourceForm_inked hsup hw).2 c hc

/-- The text of a code line names its mnemonic and mode. -/
theorem Readable.readInstruction?_code (hid : a.Readable) (hdec : a.Decodes code) {o : Nat}
    {i : Instruction} (hcode : a.codeAt? o = some i) :
    readInstruction? ((Line.code i).plainText a.labelAt?) = some (i.mnemonic, i.mode) := by
  obtain ⟨hsup, hw⟩ := Instruction.sourceValue_written (hdec o i hcode) hid
  obtain ⟨operand, hparse, hnode⟩ := parseLine_sourceForm hsup hw 0 4
  rw [← Line.plainText_code hsup hw] at hparse
  simp only [readInstruction?, hparse, hnode]
  rfl

/-- A code line does not start like a data line: its mnemonic starts with a
letter. -/
theorem Readable.not_dataDirective_code (hid : a.Readable) (hdec : a.Decodes code) {o : Nat}
    {i : Instruction} (hcode : a.codeAt? o = some i) :
    ¬ dataDirective <+: (Line.code i).plainText a.labelAt? := by
  obtain ⟨hsup, hw⟩ := Instruction.sourceValue_written (hdec o i hcode) hid
  rw [Line.plainText_code hsup hw]
  obtain ⟨b, rest, hname, hb, -⟩ := isIdentifier_iff.mp i.mnemonic.isIdentifier_name
  have hhead : ∃ more, sourceForm (some i.mnemonic) (some i.mode) (i.sourceValue a.labelAt?) =
      b :: more := by
    rcases sourceForm_written hw with ⟨-, -, hform⟩ | ⟨-, hform⟩ <;> rw [hform, hname]
    · exact ⟨rest, rfl⟩
    · exact ⟨_, rfl⟩
  obtain ⟨more, hmore⟩ := hhead
  have hdirective : dataDirective = List.replicate 4 0x20 ++ 0x2E :: ascii "byte " := by
    decide +kernel
  rw [hmore, hdirective, List.prefix_append_right_inj, List.cons_prefix_cons]
  rintro ⟨rfl, -⟩
  cases hb

/-- A line of a listing has no line feed and is not empty. -/
theorem Readable.listed_ok (hid : a.Readable) (hdec : a.Decodes code)
    (hline : line ∈ a.lines code) :
    0x0A ∉ line.listed a.labelAt? ∧ (line.listed a.labelAt?).isEmpty = false := by
  have hplain := hid.lineFeed_not_mem_plainText hdec hline
  have hmargin : ∀ address bytes, 0x0A ∉ margin address bytes := fun address bytes =>
    not_mem_of_plain (margin_plain address bytes) (by decide) rfl
  unfold Line.listed
  refine ⟨?_, ?_⟩
  · intro hmem
    rcases List.mem_append.mp hmem with hmem | hmem
    · cases line with
      | label => cases hmem
      | code i => exact hmargin _ _ hmem
      | data x bytes => exact hmargin _ _ hmem
    · exact hplain hmem
  · cases line <;> simp [Line.marginText, Line.plainText, margin, ascii]

/-- **Every line of a listing is read as what it shows.** -/
theorem Readable.read?_listed (hid : a.Readable) (hdec : a.Decodes code)
    (hline : line ∈ a.lines code) :
    ListingLine.read? (line.listed a.labelAt?) = some line.shown := by
  rcases cases_of_mem_lines hline with ⟨x, name, -, rfl⟩ | ⟨o, i, hcode, rfl⟩ | ⟨x, bytes, rfl⟩
  · simp [ListingLine.read?, Line.listed, Line.marginText, Line.plainText, Line.shown]
  · -- an instruction has one to three bytes, so it fits its columns
    have hlen := length_bytes_of_codeAt? hdec hcode
    have hsize : 1 ≤ i.mode.size ∧ i.mode.size ≤ 3 := by
      cases i.mode <;> decide
    have hne : i.bytes ≠ [] := by
      rw [← List.length_pos_iff]
      omega
    show ListingLine.read? (margin i.address i.bytes ++ _) = _
    rw [read?_margin i.address (by omega) (hid.plainText_code hdec hcode)]
    simp only [ListingLine.ofColumns?, readWord?_word, readColumns?_padRight hne,
      hid.not_dataDirective_code hdec hcode, hid.readInstruction?_code hdec hcode]
    rfl
  · have hne : bytes ≠ [] := by
      rw [← List.length_pos_iff]
      exact (length_data hline).1
    obtain ⟨hpre, hplain⟩ := Line.plainText_data a.labelAt? x bytes
    have hdirective : dataDirective <+: (Line.data x bytes).plainText a.labelAt? := hpre
    show ListingLine.read? (margin x [] ++ _) = _
    rw [read?_margin x (by simp) hplain]
    simp only [ListingLine.ofColumns?, readWord?_word, hdirective, readDirective?_data hne]
    rfl

/-- **A listing is read as its lines.** -/
theorem Readable.readListing?_lines (hid : a.Readable) (hdec : a.Decodes code) :
    readListing? ((a.lines code).flatMap (Line.text true a.labelAt?)) =
      some ((a.lines code).map Line.shown) := by
  have htext : (a.lines code).flatMap (Line.text true a.labelAt?) =
      (a.lines code).flatMap fun line => line.listed a.labelAt? ++ [0x0A] := rfl
  have hfilter : ((a.lines code).map (Line.listed a.labelAt?) ++ [[]]).filter
      (fun line => !line.isEmpty) = (a.lines code).map (Line.listed a.labelAt?) := by
    rw [List.filter_append, List.filter_eq_self.mpr]
    · exact List.append_nil _
    · intro text htext
      obtain ⟨line, hline, rfl⟩ := List.mem_map.mp htext
      rw [(hid.listed_ok hdec hline).2]
      rfl
  rw [readListing?, htext, lines_joined fun line hline => (hid.listed_ok hdec hline).1, hfilter]
  exact mapM_map_eq_some fun line hline => hid.read?_listed hdec hline

end Analysis

/-! ### Listings of images -/

namespace Analysis

variable {a : Analysis} {code : Bytes} {k : Nat} {line : Line} {x : UInt16}

/-- The address on a line is the origin plus its offset. -/
theorem address_of_getElem? (hdec : a.Decodes code)
    (hfit : a.origin.toNat + code.length ≤ addressSpace) (hk : (a.lines code)[k]? = some line)
    (hx : line.shown.address? = some x) :
    x.toNat = a.origin.toNat + Line.offset (a.lines code) k := by
  obtain ⟨hlt, hat⟩ := standsAt_of_getElem? hdec hfit hk
  rw [← toNat_addressOf hlt]
  cases line with
  | label => cases hx
  | code i =>
    cases hx
    exact congrArg UInt16.toNat (address_of_codeAt? hdec hat)
  | data =>
    cases hx
    exact congrArg UInt16.toNat hat.2

/-- Whatever a listing shows can be read, also that of an empty image. -/
theorem Readable.readListing?_printed (hid : a.Readable) (hdec : a.Decodes code) :
    readListing? ((a.printed code).flatMap (Line.text true a.labelAt?)) =
      some ((a.printed code).map Line.shown) := by
  unfold printed
  split
  · rfl
  · exact hid.readListing?_lines hdec

end Analysis

/-- **A listing is lossless.**  Every non-empty image that fits at its origin
has a listing, which can be read line by line.  The bytes on its lines are the
image; the address on a line is the origin plus the number of bytes on the lines
before it; an instruction line holds one complete instruction, which decodes to
the mnemonic and mode in its text; a data line holds one to eight bytes. -/
theorem disassemble_listing_lossless {code : Bytes} (hne : code ≠ []) {origin : UInt16}
    (hfit : origin.toNat + code.length ≤ addressSpace) {symbols : SymbolMap}
    (hid : ∀ entry ∈ symbols, isIdentifier entry.1 = true) :
    ∃ text shown, disassemble code ⟨origin, symbols, true⟩ = .ok text ∧
      readListing? text = some shown ∧
      shown.flatMap ListingLine.bytes = code ∧
      (∀ k line x, shown[k]? = some line → line.address? = some x →
        x.toNat = origin.toNat + ((shown.take k).flatMap ListingLine.bytes).length) ∧
      (∀ x bytes mnemonic mode, ListingLine.instruction x bytes mnemonic mode ∈ shown →
        ∃ i, Instruction.fetch? x bytes = some i ∧ i.bytes = bytes ∧
          i.mnemonic = mnemonic ∧ i.mode = mode) ∧
      ∀ x bytes, ListingLine.data x bytes ∈ shown → 1 ≤ bytes.length ∧ bytes.length ≤ 8 := by
  have hdec := Analysis.decodes_ofImage origin symbols code
  have hread : (Analysis.ofImage origin symbols code).Readable :=
    Analysis.readable_of_identifiers hid
  have hbytes : ∀ lines : List Line,
      (lines.map Line.shown).flatMap ListingLine.bytes = lines.flatMap Line.bytes := by
    intro lines
    rw [List.flatMap_map]
    simp
  refine ⟨_, _, disassemble_of_ne_nil hne hfit symbols true, hread.readListing?_lines hdec,
    ?_, ?_, ?_, ?_⟩
  · rw [hbytes, Analysis.flatMap_bytes_lines hdec]
  · intro k shown x hk hx
    rw [List.getElem?_map, Option.map_eq_some_iff] at hk
    obtain ⟨line, hk, rfl⟩ := hk
    rw [← List.map_take, hbytes]
    exact Analysis.address_of_getElem? hdec hfit hk hx
  · intro x bytes mnemonic mode hmem
    obtain ⟨line, hline, heq⟩ := List.mem_map.mp hmem
    cases line <;> cases heq
    obtain ⟨o, hcode⟩ := Analysis.exists_codeAt?_of_mem hline
    exact ⟨_, Instruction.fetch?_bytes (hdec o _ hcode), rfl, rfl, rfl⟩
  · intro x bytes hmem
    obtain ⟨line, hline, heq⟩ := List.mem_map.mp hmem
    cases line <;> cases heq
    exact Analysis.length_data hline

/-- An image up to the top of the address space, with a branch into an operand,
a cut-off instruction and a symbol behind it. -/
theorem disassemble_listing_lossless_overlap :
    ∃ text shown, disassemble [0xAD, 0xEA, 0x60, 0xF0, 0xFC, 0x4C, 0x00]
        ⟨0xFFF9, [(ascii "tail", 0xFFFF)], true⟩ = .ok text ∧
      readListing? text = some shown ∧
      shown = [.instruction 0xFFF9 [0xAD, 0xEA, 0x60] .lda .absolute,
        .instruction 0xFFFC [0xF0, 0xFC] .beq .relative, .data 0xFFFE [0x4C],
        .declaration (ascii "tail"), .instruction 0xFFFF [0x00] .brk .implied] ∧
      shown.flatMap ListingLine.bytes = [0xAD, 0xEA, 0x60, 0xF0, 0xFC, 0x4C, 0x00] := by
  have hne : ([0xAD, 0xEA, 0x60, 0xF0, 0xFC, 0x4C, 0x00] : Bytes) ≠ [] := by decide
  have hfit : (0xFFF9 : UInt16).toNat +
      List.length ([0xAD, 0xEA, 0x60, 0xF0, 0xFC, 0x4C, 0x00] : Bytes) ≤ addressSpace := by decide
  have hid : ∀ entry ∈ ([(ascii "tail", 0xFFFF)] : SymbolMap), isIdentifier entry.1 = true := by
    decide +kernel
  have htext : disassemble [0xAD, 0xEA, 0x60, 0xF0, 0xFC, 0x4C, 0x00]
      ⟨0xFFF9, [(ascii "tail", 0xFFFF)], true⟩ =
      .ok (ascii "FFF9  AD EA 60     LDA $60EA\nFFFC  F0 FC        BEQ LFFFA\n" ++
        ascii "FFFE               .byte $4C\ntail:\nFFFF  00           BRK\n") := by
    decide +kernel
  obtain ⟨text, shown, htext', hread, hbytes, -⟩ := disassemble_listing_lossless hne hfit hid
  rw [htext] at htext'
  cases htext'
  refine ⟨_, shown, htext, hread, ?_, hbytes⟩
  apply Option.some.inj
  rw [← hread]
  decide +kernel

end Mos6502
