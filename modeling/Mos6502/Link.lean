/-
Mos6502/Link.lean

Linking a section at an origin.  Every relocation is applied in order; where
two of them overlap the later one wins.  A symbol of the section is worth its
offset plus the origin, modulo the address space; any other symbol takes its
value from the externs.  So a name declared in the section hides an extern of
the same name.
-/
import Mos6502.Section

namespace Mos6502

/-! ### Failures -/

/-- Why a section cannot be linked. -/
inductive LinkError where
  /-- The section cannot be emitted. -/
  | emit (cause : EmitError)
  /-- So many bytes at this origin run past the address space. -/
  | overrun (length : Nat) (origin : UInt16)
  /-- A symbol has no value, or one that does not fit. -/
  | symbol (cause : SymbolError)
  /-- A relocation that patches past a section of this length. -/
  | outside (relocation : Relocation) (length : Nat)
  /-- A relocation of a kind that the linker does not know. -/
  | unknownKind (number : Int)
deriving DecidableEq, Repr

namespace LinkError

/-- The words of a link error that is in no other class. -/
def otherText : LinkError → Bytes
  | .outside r length =>
    ascii "relocation " ++ r.text ++ ascii " outside section of " ++ Numeral.nat length ++
      ascii " bytes"
  | .unknownKind number => ascii "unknown relocation kind " ++ Numeral.int number
  | .emit _ | .overrun .. | .symbol _ => []

/-- The class of a link error. -/
def fault (e : LinkError) : Fault :=
  match e with
  | .emit cause => cause.fault
  | .overrun .. => .valueOutOfRange
  | .symbol cause => cause.fault
  | .outside .. | .unknownKind _ => .other e.otherText

/-- The text of a link error. -/
def message (e : LinkError) : Bytes :=
  match e with
  | .emit cause => cause.message
  | .overrun length origin =>
    Fault.valueOutOfRange.text ++ ascii ": " ++ overrunText length origin
  | .symbol cause => cause.message
  | .outside .. | .unknownKind _ => e.otherText

/-- The symbol a link error is tied to. -/
def symbol? : LinkError → Option SymbolError
  | .emit cause => cause.symbol?
  | .symbol cause => some cause
  | .overrun .. | .outside .. | .unknownKind _ => none

end LinkError

instance : Diagnostic LinkError where
  fault := LinkError.fault
  message := LinkError.message
  symbol? := LinkError.symbol?

/-! ### Values -/

/-- The value of a symbol: its address if the section declares it, else that
of the extern. -/
def resolve? (origin : UInt16) (symbols externs : SymbolMap) (name : Bytes) : Option UInt16 :=
  match symbols.lookup name with
  | some offset => some (origin + offset)
  | none => externs.lookup name

/-- A relocation whose symbol has no value. -/
def undefinedSymbol (r : Relocation) : SymbolError :=
  ⟨r.symbol, 0, .undefinedSymbol, ascii "offset " ++ Numeral.wordLiteral r.offset⟩

/-- A value that is too large for its byte. -/
def doesNotFit (r : Relocation) (value : UInt16) : SymbolError :=
  ⟨r.symbol, 0, .valueOutOfRange, Numeral.wordLiteral value ++ ascii " does not fit in a byte"⟩

/-- A branch that does not reach its symbol. -/
def doesNotReach (r : Relocation) (distance : Int) : SymbolError :=
  ⟨r.symbol, 0, .branchOutOfRange, distanceDetail distance⟩

/-- The bytes that a relocation writes for a value.  The displacement byte is
the last one of a branch, so the distance counts from the byte behind it. -/
def patchBytes (origin : UInt16) (r : Relocation) (value : UInt16) : Except LinkError Bytes :=
  match r.kind with
  | .short =>
    if value ≤ 0xFF then .ok [Word.lo value] else .error (.symbol (doesNotFit r value))
  | .long | .absolute => .ok (Word.toBytes value)
  | .relative =>
    let distance := (value.toNat : Int) - ((origin.toNat : Int) + r.offset.toNat + 1)
    if fitsBranch distance then .ok [branchByte distance]
    else .error (.symbol (doesNotReach r distance))
  | .unknown number => .error (.unknownKind number)

/-! ### Images -/

/-- Writes bytes over an image from an offset on; what would fall outside is
not written. -/
def overwrite (image : Array UInt8) (offset : Nat) : Bytes → Array UInt8
  | [] => image
  | b :: rest => overwrite (image.setIfInBounds offset b) (offset + 1) rest

/-- Applies one relocation to an image. -/
def applyRelocation (origin : UInt16) (symbols externs : SymbolMap) (image : Array UInt8)
    (r : Relocation) : Except LinkError (Array UInt8) :=
  match resolve? origin symbols externs r.symbol with
  | none => .error (.symbol (undefinedSymbol r))
  | some value =>
    if image.size < r.offset.toNat + r.kind.width then .error (.outside r image.size)
    else
      match patchBytes origin r value with
      | .ok bytes => .ok (overwrite image r.offset.toNat bytes)
      | .error e => .error e

/-- Links a section at an origin. -/
def link (s : Section) (origin : UInt16) (externs : SymbolMap) : Except LinkError Bytes :=
  if addressSpace < origin.toNat + s.raw.length then .error (.overrun s.raw.length origin)
  else do
    let image ← s.relocations.foldlM (applyRelocation origin s.symbols externs) s.raw.toArray
    return image.toList

/-- Emits a program and links it at an origin. -/
def Program.link (p : Program) (origin : UInt16) (externs : SymbolMap) : Except LinkError Bytes :=
  match p.toSection with
  | .error cause => .error (.emit cause)
  | .ok s => Mos6502.link s origin externs

end Mos6502
