/-
Mos6502/Files/Path.lean

Paths as texts.  These functions look at the text only, never at files: the
directory and the last part of a path, its extension, and its shortest
spelling.
-/
import Mos6502.Bytes
import Mos6502.Text.Columns

namespace Mos6502.Path

/-- The byte between the parts of a path. -/
def slash : UInt8 := 0x2F

/-- The name of the directory itself. -/
def dot : Bytes := [0x2E]

/-- The name of the directory above. -/
def dotDot : Bytes := [0x2E, 0x2E]

/-- The parts of a path, empty ones left out. -/
def parts (path : Bytes) : List Bytes :=
  (path.splitOnP (· == slash)).filter fun s => !s.isEmpty

/-- Whether a path starts at the root. -/
def isRooted (path : Bytes) : Bool :=
  path.head? == some slash

/-- Adds a part to a cleaned path, the last part in front: `.` adds nothing,
and `..` takes a part away if there is one. -/
def cleanStep (rooted : Bool) (done : List Bytes) (part : Bytes) : List Bytes :=
  if part == dot then done
  else if part == dotDot then
    match done with
    | [] => if rooted then [] else [dotDot]
    | last :: others => if last == dotDot then dotDot :: done else others
  else part :: done

/-- The shortest spelling of a path. -/
def clean (path : Bytes) : Bytes :=
  let rooted := isRooted path
  let text := Text.joinWith [slash] ((parts path).foldl (cleanStep rooted) []).reverse
  if rooted then slash :: text
  else if text.isEmpty then dot else text

/-- The directory of a path, in its shortest spelling. -/
def directory (path : Bytes) : Bytes :=
  clean (path.reverse.dropWhile (· != slash)).reverse

/-- The last part of a path. -/
def base (path : Bytes) : Bytes :=
  if path.isEmpty then dot
  else
    let trimmed := path.reverse.dropWhile (· == slash)
    if trimmed.isEmpty then [slash] else (trimmed.takeWhile (· != slash)).reverse

/-- A name in a directory. -/
def join (dir name : Bytes) : Bytes :=
  if dir.getLast? == some slash then dir ++ name else dir ++ slash :: name

/-- A path without its extension: what follows the last dot of its last
part. -/
def withoutExtension (path : Bytes) : Bytes :=
  let last := (path.reverse.takeWhile (· != slash)).reverse
  if last.contains 0x2E then
    ((path.reverse.dropWhile (· != 0x2E)).drop 1).reverse
  else path

end Mos6502.Path
