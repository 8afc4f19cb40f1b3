/-
Mos6502/Command/Script.lean

What a command does with files.  A script either ends, or makes one request
and goes on with the answer.  So a command is a value, apart from any real
file system; `Script.run` carries it out on a tree of files.
-/
import Mos6502.Files.Replace

namespace Mos6502

/-- What a command leaves behind besides files. -/
structure Report where
  exit : UInt8
  stdout : Bytes
  stderr : Bytes
deriving DecidableEq, Repr

namespace Report

/-- A run that went well. -/
def success (stdout : Bytes) : Report :=
  ⟨0, stdout, []⟩

/-- A run that failed, after what it had printed so far. -/
def failure (stdout message : Bytes) : Report :=
  ⟨1, stdout, ascii "Error: " ++ message ++ [0x0A]⟩

end Report

/-- A command as a tree of requests. -/
inductive Script where
  /-- The end of the run. -/
  | done (report : Report)
  /-- Reads a file. -/
  | read (path : Bytes) (next : Except SystemError Bytes → Script)
  /-- Writes a file in place. -/
  | write (path contents : Bytes) (next : Except SystemError Unit → Script)
  /-- Replaces a file as a whole. -/
  | replace (path : Bytes) (chunks : List Bytes) (next : Except SystemError Unit → Script)

namespace Script

/-- The failure of a whole replacement whose writer never gives up. -/
def systemOnly : Except (ReplaceError Empty) Unit → Except SystemError Unit
  | .ok () => .ok ()
  | .error (.system e) => .error e

/-- Carries a script out on a tree of files. -/
def run : Script → FileTree → Report × FileTree
  | .done report, t => (report, t)
  | .read path next, t => (next (t.read path)).run t
  | .write path contents next, t =>
    match t.write path contents with
    | .ok t' => (next (.ok ())).run t'
    | .error e => (next (.error e)).run t
  | .replace path chunks next, t =>
    let (result, t') := t.replace path chunks (.ok ())
    (next (systemOnly result)).run t'

end Script

end Mos6502
