/-
Mos6502/Settings/Basic.lean

The settings of a build: origin, output format, output file and externs.
Settings are valid if the format is one of the two known ones and the extern
names are there and all different; then the table of externs has one entry for
each of them.
-/
import Mos6502.AddressSpace
import Mos6502.Fault
import Mos6502.Text.Quoted

namespace Mos6502

/-- A symbol whose value is supplied at link time. -/
structure Extern where
  name : Bytes
  value : UInt16
deriving DecidableEq, Repr

/-- The settings of one build. -/
structure Settings where
  origin : UInt16
  format : Bytes
  /-- The output file; empty if it follows from the source file. -/
  output : Bytes
  externs : List Extern
deriving DecidableEq, Repr

namespace Settings

/-- The format with an ELF header. -/
def elf : Bytes := ascii "elf"

/-- The format of the bare image. -/
def bin : Bytes := ascii "bin"

/-- The settings where nothing is set. -/
def default : Settings :=
  ⟨0x0600, elf, [], []⟩

/-- Why settings are not valid. -/
inductive Invalid where
  | format (found : Bytes)
  | emptyName
  | declaredTwice (name : Bytes)
deriving DecidableEq, Repr

/-- The class of invalid settings. -/
def Invalid.fault : Invalid → Fault
  | .format _ => .unknownFormat
  | .emptyName | .declaredTwice _ => .invalidExtern

/-- The text for invalid settings. -/
def Invalid.message (e : Invalid) : Bytes :=
  e.fault.text ++ ascii ": " ++
    match e with
    | .format found => Text.quote found
    | .emptyName => ascii "empty name"
    | .declaredTwice name => name ++ ascii " declared twice"

instance : Diagnostic Invalid where
  fault := Invalid.fault
  message := Invalid.message
  symbol? _ := none

/-- Checks externs after the names seen so far. -/
def checkExterns (seen : List Bytes) : List Extern → Except Invalid Unit
  | [] => .ok ()
  | e :: rest =>
    if e.name.isEmpty then .error .emptyName
    else if seen.contains e.name then .error (.declaredTwice e.name)
    else checkExterns (e.name :: seen) rest

/-- Checks the format, then the externs in order. -/
def validate (s : Settings) : Except Invalid Unit :=
  if s.format == elf || s.format == bin then checkExterns [] s.externs
  else .error (.format s.format)

/-- Sets the value of a name in a table; a new name comes last. -/
def insertSymbol (table : SymbolMap) (name : Bytes) (value : UInt16) : SymbolMap :=
  if (table.lookup name).isSome then
    table.map fun (k, v) => if k == name then (k, value) else (k, v)
  else table ++ [(name, value)]

/-- The externs as a table of symbols.  Of two with the same name the later
one counts. -/
def externMap (externs : List Extern) : SymbolMap :=
  externs.foldl (fun table e => insertSymbol table e.name e.value) []

/-! ### Settings files -/

/-- A way to decode a text on top of settings. -/
abbrev Decoder (ε : Type) :=
  Bytes → Settings → Except ε Settings

/-- Settings from the text of a file: decoded on top of the default ones, and
valid.  Invalid settings become a failure of the same type. -/
def loadWith {ε : Type} (decode : Decoder ε) (invalid : Invalid → ε) (source : Bytes) :
    Except ε Settings := do
  let s ← decode source default
  s.validate.mapError invalid
  return s

end Settings

end Mos6502
