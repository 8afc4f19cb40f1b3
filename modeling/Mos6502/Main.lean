/-
Mos6502/Main.lean

The command line.  The first argument names the tool, `asm65` or `dis65`; the
others are its arguments.  The tool itself is a script of file requests, which
is carried out here on the files of the system.
-/
import Mos6502.Command.Asm65
import Mos6502.Command.Dis65

namespace Mos6502.Run

/-- A byte string as the system takes it. -/
def nameOf (b : Bytes) : String :=
  String.ofList (Text.chars b)

/-- A byte string as an array. -/
def arrayOf (b : Bytes) : ByteArray :=
  ⟨b.toArray⟩

/-- The system's number for a path that leads through a file. -/
def notDirectoryCode : UInt32 := 20

/-- The system's number for a name that is too long. -/
def nameTooLongCode : UInt32 := 36

/-- The cause of a failed call. -/
def causeOf : IO.Error → SystemCause
  | .noFileOrDirectory .. => .notFound
  | .alreadyExists .. => .fileExists
  | .inappropriateType _ code _ =>
    if code == notDirectoryCode then .notDirectory else .isDirectory
  | .invalidArgument _ code _ =>
    if code == nameTooLongCode then .nameTooLong else .invalidArgument
  | e => .other (e.toString.toUTF8.toList)

/-- Makes a call; a failure becomes a system error. -/
def call {α : Type} (name : String) (paths : List Bytes) (act : IO α) :
    IO (Except SystemError α) := do
  try
    return .ok (← act)
  catch e =>
    return .error ⟨name, paths, causeOf e⟩

/-- The contents of a file.  A directory can be opened but not read. -/
def read (path : Bytes) : IO (Except SystemError Bytes) := do
  match ← call "open" [path] (IO.FS.readBinFile (nameOf path)) with
  | .ok contents => return .ok contents.toList
  | .error e => return .error (if e.cause == .isDirectory then { e with call := "read" } else e)

/-- Makes a file that its owner may change and everyone may run. -/
def makeExecutable (name : String) : IO Unit :=
  IO.setAccessRights name ⟨⟨true, true, true⟩, ⟨true, false, true⟩, ⟨true, false, true⟩⟩

/-- Moves a file to a path, over a file that is there but not over a
directory. -/
def rename (name path : Bytes) : IO (Except SystemError Unit) := do
  match ← call "rename" [name, path] (IO.FS.rename (nameOf name) (nameOf path)) with
  | .ok () => return .ok ()
  | .error e => return .error (if e.cause == .isDirectory then { e with cause := .fileExists } else e)

/-- Replaces a file as a whole, by way of a temporary one beside it. -/
def replace (path : Bytes) (chunks : List Bytes) : IO (Except SystemError Unit) := do
  let stem := FileTree.temporaryStem path
  if stem.contains Path.slash then
    return .error ⟨"createtemp", [stem ++ [0x2A]], .separatorInName⟩
  let digits := Numeral.nat (← IO.rand 0 999999999)
  let temporary := Path.join (Path.directory path) (stem ++ digits)
  let name := nameOf temporary
  match ← call "open" [temporary] (IO.FS.writeBinFile name (arrayOf chunks.flatten)) with
  | .error e => return .error e
  | .ok () =>
    let result ← match ← call "chmod" [temporary] (makeExecutable name) with
      | .error e => pure (.error e)
      | .ok () => rename temporary path
    if let .error _ := result then
      let _ ← call "remove" [temporary] (IO.FS.removeFile name)
    return result

/-- Carries a script out. -/
def perform : Script → IO Report
  | .done report => return report
  | .read path next => do
    perform (next (← read path))
  | .write path contents next => do
    let result ← call "open" [path] (IO.FS.writeBinFile (nameOf path) (arrayOf contents))
    perform (next result)
  | .replace path chunks next => do
    perform (next (← replace path chunks))

/-- The script of a tool. -/
def toolOf : List String → Script
  | "dis65" :: args => Command.Dis65.script (args.map fun a => a.toUTF8.toList)
  | "asm65" :: args => Command.Asm65.script (args.map fun a => a.toUTF8.toList)
  | args => Command.Asm65.script (args.map fun a => a.toUTF8.toList)

end Mos6502.Run

/-- Runs a tool and ends with its exit status. -/
def main (args : List String) : IO UInt32 := do
  let report ← Mos6502.Run.perform (Mos6502.Run.toolOf args)
  (← IO.getStdout).write (Mos6502.Run.arrayOf report.stdout)
  (← IO.getStderr).write (Mos6502.Run.arrayOf report.stderr)
  return report.exit.toUInt32
