/-
Mos6502/Command/Build.lean

What the assembler command does with its options.  It reads the settings and
the source file, assembles and links, prints what was asked for, and replaces
the output file as a whole.  The output file is touched only after everything
else went well.

Settings come from a file, if one is named, and options override them.  How the
text of that file is decoded is left open.
-/
import Mos6502.Command.Dump
import Mos6502.Command.Request
import Mos6502.Disassembly.Listing
import Mos6502.Elf
import Mos6502.Link
import Mos6502.Settings.Address
import Mos6502.Settings.Basic

namespace Mos6502.Command.Asm65

/-- A file's name in front of a message. -/
def inFile (path message : Bytes) : Bytes :=
  path ++ ascii ": " ++ message

/-! ### Settings -/

/-- Options override settings; the result has to be valid.  A failure is its
message. -/
def override (a : Arguments) (s : Settings) : Except Bytes Settings := do
  let s := if (a.text "output").isEmpty then s else { s with output := a.text "output" }
  let s := if (a.text "format").isEmpty then s else { s with format := a.text "format" }
  let s ←
    if (a.text "origin").isEmpty then pure s
    else
      match parseAddress (a.text "origin") with
      | .ok origin => pure { s with origin }
      | .error e => throw e.message
  match s.validate with
  | .ok () => return s
  | .error e => throw e.message

/-- The settings in the contents of a file, or the failure to read it. -/
def settingsIn (decode : Settings.Decoder Bytes) (path : Bytes) :
    Except SystemError Bytes → Except Bytes Settings
  | .error e =>
    .error (if e.call == "read" then inFile path e.message else e.message)
  | .ok contents =>
    (Settings.loadWith decode Settings.Invalid.message contents).mapError (inFile path)

/-! ### Output -/

/-- The output file: as set, or the source file with the format as its
extension. -/
def outputPath (s : Settings) (source : Bytes) : Bytes :=
  if s.output.isEmpty then Path.withoutExtension source ++ 0x2E :: s.format else s.output

/-- What is written to the output file, in order. -/
def outputChunks (s : Settings) (image : Bytes) : List Bytes :=
  if s.format == Settings.bin then [image]
  else [(Elf.Header.ofEntry s.origin.toUInt32).toBytes, image]

/-- The listing of a linked program, with its labels. -/
def listing (s : Settings) (p : Program) (image : Bytes) : Except OverrunError Bytes :=
  disassemble image ⟨s.origin, p.symbolMap.relocate s.origin, true⟩

/-- A linked program: what was printed on the way, and the image. -/
structure Built where
  printed : Bytes
  image : Bytes

/-- Assembles and links a source text.  A failure has what was printed before
it, and its message. -/
def buildImage (a : Arguments) (s : Settings) (path text : Bytes) :
    Except (Bytes × Bytes) Built :=
  match assemble text with
  | .error e => .error ([], inFile path e.message)
  | .ok p =>
    let dumped := if a.flag "dump" then dump p else []
    match p.link s.origin (Settings.externMap s.externs) with
    | .error e => .error (dumped, inFile path e.message)
    | .ok image =>
      if a.flag "listing" then
        match listing s p image with
        | .error e => .error (dumped, e.message)
        | .ok text => .ok ⟨dumped ++ text, image⟩
      else .ok ⟨dumped, image⟩

/-- The line about what was written. -/
def wroteText (s : Settings) (image path : Bytes) : Bytes :=
  ascii "Wrote " ++ Numeral.nat image.length ++ ascii " bytes at " ++
    Numeral.wordLiteral s.origin ++ ascii " to " ++ path ++ [0x0A]

/-! ### The command -/

/-- Replaces the output file and reports. -/
def finish (a : Arguments) (s : Settings) (source : Bytes) (built : Built) : Script :=
  let path := outputPath s source
  .replace path (outputChunks s built.image) fun
    | .error e => .done (.failure built.printed e.message)
    | .ok () =>
      let wrote := if a.flag "verbose" then wroteText s built.image path else []
      .done (.success (built.printed ++ wrote))

/-- Reads the source file and builds it. -/
def build (a : Arguments) (s : Settings) : Script :=
  let source := a.positional 0
  .read source fun
    | .error e => .done (.failure [] e.message)
    | .ok text =>
      match buildImage a s source text with
      | .error (printed, message) => .done (.failure printed message)
      | .ok built => finish a s source built

/-- Goes on with the settings, once options have overridden them. -/
def withSettings (a : Arguments) : Except Bytes Settings → Script
  | .error message => .done (.failure [] message)
  | .ok s =>
    match override a s with
    | .error message => .done (.failure [] message)
    | .ok s => build a s

/-- The command on its options. -/
def command (decode : Settings.Decoder Bytes) (a : Arguments) : Script :=
  let config := a.text "config"
  if config.isEmpty then withSettings a (.ok Settings.default)
  else .read config fun contents => withSettings a (settingsIn decode config contents)

end Mos6502.Command.Asm65
