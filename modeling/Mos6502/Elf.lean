/-
Mos6502/Elf.lean

The ELF image of a program: a fixed ELF32 header of 52 bytes, then the code.
Only the entry point varies in the headers written here.  A header that is
read may hold anything outside the fields that are checked: the magic number,
the class and the machine.

Fields are little-endian and follow each other without padding, so writing a
header that was read gives back its bytes.
-/
import Mos6502.Fault

namespace Mos6502.Elf

/-! ### Fields -/

/-- A 32-bit word, low byte first. -/
def longBytes (n : UInt32) : Bytes :=
  [n.toUInt8, (n / 0x100).toUInt8, (n / 0x10000).toUInt8, (n / 0x1000000).toUInt8]

/-- The 32-bit word with the given bytes, low byte first. -/
def longOf (a b c d : UInt8) : UInt32 :=
  a.toUInt32 + b.toUInt32 * 0x100 + c.toUInt32 * 0x10000 + d.toUInt32 * 0x1000000

/-- The value of a 32-bit word by its bytes. -/
theorem toNat_longOf (a b c d : UInt8) :
    (longOf a b c d).toNat =
      a.toNat + 0x100 * b.toNat + 0x10000 * c.toNat + 0x1000000 * d.toNat := by
  have ha := a.toNat_lt
  have hb := b.toNat_lt
  have hc := c.toNat_lt
  have hd := d.toNat_lt
  simp only [longOf, UInt32.toNat_add, UInt32.toNat_mul, UInt8.toNat_toUInt32, UInt32.reduceToNat]
  omega

/-- A 32-bit word is written as the bytes it was made of. -/
@[simp]
theorem longBytes_longOf (a b c d : UInt8) : longBytes (longOf a b c d) = [a, b, c, d] := by
  have ha := a.toNat_lt
  have hb := b.toNat_lt
  have hc := c.toNat_lt
  have hd := d.toNat_lt
  simp only [longBytes, List.cons.injEq, ← UInt8.toNat_inj, UInt32.toNat_toUInt8,
    UInt32.toNat_div, toNat_longOf, UInt32.reduceToNat, and_true]
  omega

/-- A 32-bit word is made of the bytes it is written as. -/
@[simp]
theorem longOf_toUInt8 (n : UInt32) :
    longOf n.toUInt8 (n / 0x100).toUInt8 (n / 0x10000).toUInt8 (n / 0x1000000).toUInt8 = n := by
  have hn := n.toNat_lt
  apply UInt32.toNat_inj.mp
  simp only [toNat_longOf, UInt32.toNat_toUInt8, UInt32.toNat_div, UInt32.reduceToNat]
  omega

/-- An ELF32 header. -/
structure Header where
  /-- The sixteen identification bytes. -/
  ident : Bytes
  type : UInt16
  machine : UInt16
  version : UInt32
  entry : UInt32
  phoff : UInt32
  shoff : UInt32
  flags : UInt32
  ehsize : UInt16
  phentsize : UInt16
  phnum : UInt16
  shentsize : UInt16
  shnum : UInt16
  shstrndx : UInt16
deriving DecidableEq, Repr

/-- The length of a header. -/
def headerSize : Nat := 52

/-- The number of the 6502 among machines. -/
def machine6502 : UInt16 := 0x6502

/-- The bytes that every ELF file starts with. -/
def magic : Bytes := [0x7F, 0x45, 0x4C, 0x46]

/-- The class byte of 32-bit files. -/
def class32 : UInt8 := 1

namespace Header

/-- The header of an executable image with an entry point. -/
def ofEntry (entry : UInt32) : Header where
  ident := magic ++ [class32, 1, 1] ++ List.replicate 9 0
  type := 2
  machine := machine6502
  version := 1
  entry := entry
  phoff := 52
  shoff := 0
  flags := 0
  ehsize := 52
  phentsize := 0
  phnum := 0
  shentsize := 0
  shnum := 0
  shstrndx := 0

/-- A header as bytes. -/
def toBytes (h : Header) : Bytes :=
  h.ident ++ Word.toBytes h.type ++ Word.toBytes h.machine ++ longBytes h.version ++
    longBytes h.entry ++ longBytes h.phoff ++ longBytes h.shoff ++ longBytes h.flags ++
    Word.toBytes h.ehsize ++ Word.toBytes h.phentsize ++ Word.toBytes h.phnum ++
    Word.toBytes h.shentsize ++ Word.toBytes h.shnum ++ Word.toBytes h.shstrndx

/-- Splits a header off the front of a byte string of 52 bytes or more. -/
def split? : Bytes → Option (Header × Bytes)
  | i0 :: i1 :: i2 :: i3 :: i4 :: i5 :: i6 :: i7 :: i8 :: i9 :: i10 :: i11 :: i12 :: i13 :: i14 ::
    i15 :: t0 :: t1 :: m0 :: m1 :: v0 :: v1 :: v2 :: v3 :: e0 :: e1 :: e2 :: e3 :: p0 :: p1 ::
    p2 :: p3 :: s0 :: s1 :: s2 :: s3 :: f0 :: f1 :: f2 :: f3 :: z0 :: z1 :: y0 :: y1 :: x0 ::
    x1 :: w0 :: w1 :: u0 :: u1 :: r0 :: r1 :: code =>
    some
      ({ ident := [i0, i1, i2, i3, i4, i5, i6, i7, i8, i9, i10, i11, i12, i13, i14, i15]
         type := Word.ofBytes t0 t1
         machine := Word.ofBytes m0 m1
         version := longOf v0 v1 v2 v3
         entry := longOf e0 e1 e2 e3
         phoff := longOf p0 p1 p2 p3
         shoff := longOf s0 s1 s2 s3
         flags := longOf f0 f1 f2 f3
         ehsize := Word.ofBytes z0 z1
         phentsize := Word.ofBytes y0 y1
         phnum := Word.ofBytes x0 x1
         shentsize := Word.ofBytes w0 w1
         shnum := Word.ofBytes u0 u1
         shstrndx := Word.ofBytes r0 r1 }, code)
  | _ => none

/-- The class byte. -/
def classByte (h : Header) : UInt8 :=
  h.ident.getD 4 0

end Header

/-! ### Images -/

/-- An image: header and code. -/
structure Image where
  header : Header
  code : Bytes
deriving DecidableEq, Repr

/-- Why data is no image of a 6502 program. -/
inductive ReadError where
  /-- It is too short or does not start as an ELF file. -/
  | notElf
  /-- It is an ELF file of another class or for another machine. -/
  | otherMachine (machine : UInt16)
deriving DecidableEq, Repr

/-- The text of a read error. -/
def ReadError.message : ReadError → Bytes
  | .notElf => Fault.notImage.text
  | .otherMachine machine =>
    Fault.notImage.text ++ ascii ": machine 0x" ++ Numeral.lowerHex machine.toNat

instance : Diagnostic ReadError where
  fault _ := .notImage
  message := ReadError.message
  symbol? _ := none

/-- The image of code with an entry point, as bytes. -/
def writeImage (entry : UInt32) (code : Bytes) : Bytes :=
  (Header.ofEntry entry).toBytes ++ code

/-- Splits an image into header and code. -/
def readImage (data : Bytes) : Except ReadError Image :=
  if !magic.isPrefixOf data then .error .notElf
  else
    match Header.split? data with
    | none => .error .notElf
    | some (header, code) =>
      if header.machine == machine6502 && header.classByte == class32 then
        .ok ⟨header, code⟩
      else .error (.otherMachine header.machine)

end Mos6502.Elf
