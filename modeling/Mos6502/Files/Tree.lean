/-
Mos6502/Files/Tree.lean

A tree of files.  A place in the tree is the list of names that leads to it
from the root.  A path is followed name by name, from the root if it starts
with a slash and else from the working directory: every name but the last has
to be a directory, and a slash at the end asks for a directory too.

Reading and writing report what a system would: which call failed, on which
path, and why.
-/
import Mos6502.Files.Path

namespace Mos6502

/-- The names that lead from the root to a file or directory. -/
abbrev Place := List Bytes

/-- Files with their contents, and directories.  The root, the empty place, is
always there. -/
structure FileTree where
  files : List (Place × Bytes)
  directories : List Place
  /-- The working directory. -/
  working : Place
deriving DecidableEq, Repr

/-! ### Failures -/

/-- Why a call on a file failed. -/
inductive SystemCause where
  | notFound
  | notDirectory
  | isDirectory
  | fileExists
  /-- A name or the whole path is longer than the system allows. -/
  | nameTooLong
  /-- The path holds a zero byte. -/
  | invalidArgument
  /-- The name of a temporary file holds a slash. -/
  | separatorInName
  /-- Any other cause, in the words of the system. -/
  | other (text : Bytes)
deriving DecidableEq, Repr

/-- The words for a cause. -/
def SystemCause.text : SystemCause → Bytes
  | .notFound => ascii "no such file or directory"
  | .notDirectory => ascii "not a directory"
  | .isDirectory => ascii "is a directory"
  | .fileExists => ascii "file exists"
  | .nameTooLong => ascii "file name too long"
  | .invalidArgument => ascii "invalid argument"
  | .separatorInName => ascii "pattern contains path separator"
  | .other text => text

/-- A failed call: its name, the path or paths it was given, and the cause. -/
structure SystemError where
  call : String
  paths : List Bytes
  cause : SystemCause
deriving DecidableEq, Repr

/-- The text of a system error. -/
def SystemError.message (e : SystemError) : Bytes :=
  ascii e.call ++ e.paths.flatMap (fun path => 0x20 :: path) ++ ascii ": " ++ e.cause.text

namespace FileTree

/-! ### Looking and changing -/

/-- The contents of the file at a place. -/
def file? (t : FileTree) (place : Place) : Option Bytes :=
  t.files.lookup place

/-- Whether a place is a directory. -/
def isDirectory (t : FileTree) (place : Place) : Bool :=
  place.isEmpty || t.directories.contains place

/-- Removes the file at a place, if there is one. -/
def erase (t : FileTree) (place : Place) : FileTree :=
  { t with files := t.files.filter fun (p, _) => p != place }

/-- Sets the contents of the file at a place. -/
def set (t : FileTree) (place : Place) (contents : Bytes) : FileTree :=
  { t with files := (place, contents) :: (t.erase place).files }

/-- Adds bytes at the end of the file at a place. -/
def append (t : FileTree) (place : Place) (contents : Bytes) : FileTree :=
  t.set place ((t.file? place).getD [] ++ contents)

/-! ### Building a tree -/

/-- The places of the directories that lead to a place. -/
def above (place : Place) : List Place :=
  (List.range place.length).map fun n => place.take n

/-- Adds directories that are not there yet. -/
def addDirectories (t : FileTree) (places : List Place) : FileTree :=
  { t with directories :=
      places.foldl (fun ds p => if p.isEmpty || ds.contains p then ds else ds ++ [p]) t.directories }

/-- Adds a file in the working directory, with the directories that lead to
it. -/
def addFile (t : FileTree) (path contents : Bytes) : FileTree :=
  let place := t.working ++ Path.parts path
  (t.addDirectories (above place)).set place contents

/-- Adds a directory in the working directory, with those that lead to it. -/
def addDirectory (t : FileTree) (path : Bytes) : FileTree :=
  let place := t.working ++ Path.parts path
  t.addDirectories (above place ++ [place])

/-- The tree with nothing in it but a working directory and those that lead to
it. -/
def empty (working : Place) : FileTree :=
  FileTree.addDirectories ⟨[], [], working⟩ (above working ++ [working])

/-- The files below the working directory, by the names that lead to them from
there. -/
def workingFiles (t : FileTree) : List (Place × Bytes) :=
  t.files.filterMap fun (place, contents) =>
    if t.working.isPrefixOf place then some (place.drop t.working.length, contents) else none

/-! ### Following paths -/

/-- The most bytes that a name may have. -/
def longestAllowed : Nat := 255

/-- The most bytes that a path may have. -/
def longestPath : Nat := 4095

/-- Where a path starts. -/
def start (t : FileTree) (path : Bytes) : Place :=
  if Path.isRooted path then [] else t.working

/-- Follows names from a directory, each to a directory. -/
def walk (t : FileTree) (place : Place) : List Bytes → Except SystemCause Place
  | [] => .ok place
  | name :: rest =>
    if name == Path.dot then t.walk place rest
    else if name == Path.dotDot then t.walk place.dropLast rest
    else
      let next := place ++ [name]
      if longestAllowed < name.length then .error .nameTooLong
      else if t.isDirectory next then t.walk next rest
      else if (t.file? next).isSome then .error .notDirectory
      else .error .notFound

/-- Where a path leads. -/
inductive Location where
  | directory (place : Place)
  /-- A name in a directory that is there, with or without a slash after it;
  the name need not be there. -/
  | name (place : Place) (slashed : Bool)
deriving DecidableEq, Repr

/-- Follows a path up to its last name. -/
def locate (t : FileTree) (path : Bytes) : Except SystemCause Location :=
  if path.contains 0 then .error .invalidArgument
  else if path.isEmpty then .error .notFound
  else if longestPath < path.length then .error .nameTooLong
  else
    match (Path.parts path).getLast? with
    | none => .ok (.directory [])
    | some last => do
      let parent ← t.walk (t.start path) (Path.parts path).dropLast
      if last == Path.dot || last == Path.dotDot then
        return .directory (← t.walk parent [last])
      else if longestAllowed < last.length then throw .nameTooLong
      else if t.isDirectory (parent ++ [last]) then
        return .directory (parent ++ [last])
      else
        return .name (parent ++ [last]) (path.getLast? == some Path.slash)

/-! ### Reading and writing -/

/-- The contents of the file at a path. -/
def read (t : FileTree) (path : Bytes) : Except SystemError Bytes :=
  match t.locate path with
  | .error cause => .error ⟨"open", [path], cause⟩
  | .ok (.directory _) => .error ⟨"read", [path], .isDirectory⟩
  | .ok (.name place slashed) =>
    match t.file? place with
    | none => .error ⟨"open", [path], .notFound⟩
    | some contents =>
      if slashed then .error ⟨"open", [path], .notDirectory⟩ else .ok contents

/-- Writes a file in place: what was there is lost first. -/
def write (t : FileTree) (path contents : Bytes) : Except SystemError FileTree :=
  match t.locate path with
  | .error cause => .error ⟨"open", [path], cause⟩
  | .ok (.directory _) | .ok (.name _ true) => .error ⟨"open", [path], .isDirectory⟩
  | .ok (.name place false) => .ok (t.set place contents)

/-- The files below the working directory that another tree does not have with
the same contents. -/
def changesSince (t before : FileTree) : List (Place × Bytes) :=
  t.workingFiles.filter fun (place, contents) =>
    before.file? (before.working ++ place) != some contents

end FileTree

end Mos6502
