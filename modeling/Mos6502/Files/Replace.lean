/-
Mos6502/Files/Replace.lean

Replacing a file as a whole.  The new contents are written to a temporary file
beside the old one, which is closed, made executable and then takes the place
of the old one in one step.  Whatever happens on the way, the temporary name is
removed at the end, so the file is either replaced or untouched, and nothing is
left behind.

A tree of files does not settle everything: which names are drawn for the
temporary file, and whether a call fails for a reason of its own, is up to the
`System`.
-/
import Mos6502.Files.Tree
import Mos6502.Text.Numeral

namespace Mos6502

/-- Why a file was not replaced: a failed call, or a writer that gave up. -/
inductive ReplaceError (ε : Type) where
  | system (cause : SystemError)
  | writer (cause : ε)
deriving DecidableEq, Repr

/-! ### Systems -/

/-- The calls by which a file is replaced. -/
inductive SystemCall where
  | create
  | close
  | mode
  | rename
deriving DecidableEq, Repr

/-- The word for a call in its errors. -/
def SystemCall.word : SystemCall → String
  | .create => "open"
  | .close => "close"
  | .mode => "chmod"
  | .rename => "rename"

/-- What a tree leaves open. -/
structure System where
  /-- How the name of a temporary file ends. -/
  draw : Bytes
  /-- Further endings, in case that names are in use. -/
  redraws : List Bytes
  /-- An ending as it is shown in errors. -/
  shown : Bytes → Bytes
  /-- Why a call fails although the tree would allow it: a full disk, for
  example. -/
  fault? : SystemCall → Option SystemCause

/-- A call that the tree allows. -/
def System.attempt (s : System) (call : SystemCall) (paths : List Bytes) :
    Except SystemError Unit :=
  match s.fault? call with
  | none => .ok ()
  | some cause => .error ⟨call.word, paths, cause⟩

namespace FileTree

/-! ### Temporary files -/

/-- Whether a place is in use. -/
def isUsed (t : FileTree) (place : Place) : Bool :=
  t.isDirectory place || (t.file? place).isSome

/-- What the name of a temporary file starts with. -/
def temporaryStem (path : Bytes) : Bytes :=
  0x2E :: (Path.base path ++ [0x2E])

/-- The ending that a reliable system draws first: ten digits, as most are. -/
def firstEnding : Nat := 1000000000

/-- A system where no call fails for a reason of its own.  It counts up from
its first ending, as often as there are names in the tree, and shows none of
the digits. -/
def reliable (t : FileTree) : System where
  draw := Numeral.nat firstEnding
  redraws := (List.range (t.files.length + t.directories.length)).map fun n =>
    Numeral.nat (firstEnding + 1 + n)
  shown _ := ascii "TMP"
  fault? _ := none

/-- The place of a new file by its name in a directory. -/
def newPlace (t : FileTree) (dir name : Bytes) : Except SystemCause Place :=
  let path := Path.join dir name
  if path.contains 0 then .error .invalidArgument
  else if longestPath < path.length then .error .nameTooLong
  else do
    let directory ← t.walk (t.start dir) (Path.parts dir)
    if longestAllowed < name.length then throw .nameTooLong
    else if t.isUsed (directory ++ [name]) then throw .fileExists
    else return directory ++ [name]

/-- Makes an empty file in a directory under the first of the names that is not
in use; gives its place and its path. -/
def createFirst (t : FileTree) (s : System) (dir stem : Bytes) :
    List Bytes → Except SystemError (FileTree × Place × Bytes)
  | [] => .error ⟨"createtemp", [Path.join dir (stem ++ [0x2A])], .fileExists⟩
  | ending :: endings =>
    let name := Path.join dir (stem ++ s.shown ending)
    match t.newPlace dir (stem ++ ending) with
    | .error .fileExists => t.createFirst s dir stem endings
    | .error cause => .error ⟨"open", [name], cause⟩
    | .ok place => do
      s.attempt .create [name]
      return (t.set place [], place, name)

/-- Makes an empty temporary file beside the file at a path. -/
def createTemporaryOn (t : FileTree) (s : System) (path : Bytes) :
    Except SystemError (FileTree × Place × Bytes) :=
  let stem := temporaryStem path
  if stem.contains Path.slash then
    .error ⟨"createtemp", [stem ++ [0x2A]], .separatorInName⟩
  else t.createFirst s (Path.directory path) stem (s.draw :: s.redraws)

def createTemporary (t : FileTree) (path : Bytes) :
    Except SystemError (FileTree × Place × Bytes) :=
  t.createTemporaryOn t.reliable path

/-! ### Renaming -/

/-- Moves the file at a place to a path, over a file that is there but not
over a directory. -/
def rename (t : FileTree) (place : Place) (name path : Bytes) : Except SystemError FileTree :=
  match t.locate path with
  | .error cause => .error ⟨"rename", [name, path], cause⟩
  | .ok (.directory _) => .error ⟨"rename", [name, path], .fileExists⟩
  | .ok (.name _ true) => .error ⟨"rename", [name, path], .notDirectory⟩
  | .ok (.name target false) =>
    .ok ((t.erase place).set target ((t.file? place).getD []))

/-! ### Replacing -/

/-- What follows the writing: unless the writer gave up, the temporary file is
closed, gets its mode, and is moved. -/
def moveInto {ε : Type} (t : FileTree) (s : System) (place : Place) (name path : Bytes)
    (outcome : Except ε Unit) : Except (ReplaceError ε) FileTree := do
  outcome.mapError .writer
  Except.mapError .system do
    s.attempt .close [name]
    s.attempt .mode [name]
    s.attempt .rename [name, path]
    t.rename place name path

/-- Replaces the file at a path by the given chunks, unless a call fails or
the writer gives up after them. -/
def replaceOn {ε : Type} (t : FileTree) (s : System) (path : Bytes) (chunks : List Bytes)
    (outcome : Except ε Unit) : Except (ReplaceError ε) Unit × FileTree :=
  match t.createTemporaryOn s path with
  | .error e => (.error (.system e), t)
  | .ok (created, place, name) =>
    let written := chunks.foldl (fun t chunk => t.append place chunk) created
    -- on every exit the temporary name is removed, also when the file has moved away
    match written.moveInto s place name path outcome with
    | .error e => (.error e, written.erase place)
    | .ok moved => (.ok (), moved.erase place)

def replace {ε : Type} (t : FileTree) (path : Bytes) (chunks : List Bytes)
    (outcome : Except ε Unit) : Except (ReplaceError ε) Unit × FileTree :=
  t.replaceOn t.reliable path chunks outcome

end FileTree

end Mos6502
