/-
Mos6502/Command/Options.lean

Command-line options.  Arguments are read from left to right; empty ones are
skipped.  A long option is `--name`, with its value after `=` or in the next
argument.  Short options are single letters that may stand together.  All
other arguments are positional.

* A long flag takes a word for true or false after `=`, else from the next
  argument if such a word is there; else it is set.
* Of letters that stand together only one takes the next argument: the first
  that needs a value, or the first flag if a word for true or false is there.
  A flag after it is set, and a value that is needed after it is empty.
* A value after `=` goes to a single letter as it is.  For a flag, everything
  but a word for true means false.  Letters that stand together pass over it.
  An equals sign with nothing after it is read as one more letter.
-/
import Mos6502.Command.Request
import Mos6502.Text.Utf8

namespace Mos6502.Command

/-! ### What a command takes -/

/-- What an option takes. -/
inductive OptionKind where
  /-- A truth value, perhaps left out. -/
  | flag
  /-- A text; one of the choices, if there are any. -/
  | text (choices : List Bytes)
deriving DecidableEq, Repr

/-- An option of a command. -/
structure OptionSpec where
  letter : Char
  name : String
  help : String
  kind : OptionKind
deriving DecidableEq, Repr

/-- A positional argument of a command. -/
structure PositionalSpec where
  name : String
  help : String
deriving DecidableEq, Repr

/-- A command: its name, its options and its positional arguments. -/
structure Spec where
  name : String
  options : List OptionSpec
  positionals : List PositionalSpec
deriving DecidableEq, Repr

/-- The option that asks for help, which every command has. -/
def helpOption : OptionSpec :=
  ⟨'h', "help", "Print this help message.", .flag⟩

/-- The help text of a command. -/
def Spec.help (s : Spec) : Bytes :=
  let usage := s.positionals.foldl (fun text p => text ++ " [" ++ p.name ++ "]") ""
  let option := fun (o : OptionSpec) (suffix : String) =>
    "\t-" ++ String.singleton o.letter ++ ", --" ++ o.name ++ "\t" ++ o.help ++ suffix ++ "\n"
  let suffix := fun (o : OptionSpec) => if o.kind == .flag then " (default: false)" else ""
  let options := s.options.foldl (fun text o => text ++ option o (suffix o)) ""
  let positionals := s.positionals.foldl
    (fun text p => text ++ "\t" ++ p.name ++ "\t" ++ p.help ++ "\n") ""
  ascii ("Usage:\n  " ++ s.name ++ " [OPTIONS]..." ++ usage ++ "\n\nMain options:\n" ++
    option helpOption "" ++ options ++ "\n\nPositional arguments:\n" ++ positionals ++ "\n")

/-! ### Failures -/

/-- Why arguments cannot be used. -/
inductive OptionError where
  /-- An option that the command does not have, as written. -/
  | unknown (option : Bytes)
  /-- An option without the value it needs. -/
  | missingValue (option : Bytes)
  /-- A value after letters that is none of the choices: the argument with the
  letters, and the value that the option had before. -/
  | illegalChoice (argument : Bytes) (before : Option Bytes)
  /-- A value of a long option that is none of the choices: the argument
  without its dashes, and the value. -/
  | illegalLongChoice (argument value : Bytes)
  /-- Two dashes with nothing after them. -/
  | emptyLong
deriving DecidableEq, Repr

/-- The text of an option error. -/
def OptionError.message : OptionError → Bytes
  | .unknown option => option ++ ascii ": unknown option"
  | .missingValue option => option ++ ascii ": missing option parameter"
  | .illegalChoice argument before =>
    argument ++ ascii "=" ++ before.getD (ascii "<nil>") ++ ascii ": illegal choice"
  | .illegalLongChoice argument value =>
    argument ++ ascii "=" ++ value ++ ascii ": &\x7b%!W(string=illegal choice)\x7d"
  | .emptyLong => ascii "long option without a string"

/-! ### Reading -/

/-- A word for true or false, in any case. -/
def truthWord? (s : Bytes) : Option Bool :=
  let word := s.map fun b => if 0x41 ≤ b && b ≤ 0x5A then b + 0x20 else b
  if ["true", "yes", "on", "1", "t"].any fun w => ascii w == word then some true
  else if ["false", "no", "off", "0", "f"].any fun w => ascii w == word then some false
  else none

/-- Sets a flag. -/
def Arguments.setFlag (a : Arguments) (option : OptionSpec) (b : Bool) : Arguments :=
  { a with flags := (option.name, b) :: a.flags }

/-- Gives an option a text. -/
def Arguments.setText (a : Arguments) (option : OptionSpec) (value : Bytes) : Arguments :=
  { a with texts := (option.name, value) :: a.texts }

/-- Whether a value is one of the choices, or there are none to choose from. -/
def isChoice (choices : List Bytes) (value : Bytes) : Bool :=
  choices.isEmpty || choices.contains value

/-- Splits a text at its first equals sign; the value is empty without one. -/
def splitAtEquals (s : Bytes) : Bytes × Bytes :=
  (s.takeWhile (· != 0x3D), (s.dropWhile (· != 0x3D)).drop 1)

/-- The options of a command, with the one for help. -/
def Spec.allOptions (s : Spec) : List OptionSpec :=
  helpOption :: s.options

/-! ### Long options -/

/-- Sets a long flag: by its value, by the next argument, or because it is
there.  The result has the arguments that are left. -/
def readLongFlag (option : OptionSpec) (value : Bytes) (rest : List Bytes) (a : Arguments) :
    Arguments × List Bytes :=
  match truthWord? value, rest with
  | some b, _ => (a.setFlag option b, rest)
  | none, [] => (a.setFlag option true, [])
  | none, next :: others =>
    match truthWord? next with
    | some b => (a.setFlag option b, others)
    | none => (a.setFlag option true, rest)

/-- The value of a long option: the one after `=` unless that is empty, else
the next argument.  The result has the arguments that are left. -/
def longValue? (value : Bytes) (rest : List Bytes) : Option (Bytes × List Bytes) :=
  match value, rest with
  | _ :: _, _ => some (value, rest)
  | [], next :: others => some (next, others)
  | [], [] => none

/-- Reads a long option, without its dashes. -/
def readLong (s : Spec) (body : Bytes) (rest : List Bytes) (a : Arguments) :
    Except OptionError (Arguments × List Bytes) :=
  let (name, value) := splitAtEquals body
  match s.allOptions.find? fun o => ascii o.name == name with
  | none => .error (.unknown (ascii "--" ++ name))
  | some option =>
    match option.kind with
    | .flag => .ok (readLongFlag option value rest a)
    | .text choices =>
      match longValue? value rest with
      | none => .error (.missingValue (ascii "--" ++ name))
      | some (value, rest) =>
        if isChoice choices value then .ok (a.setText option value, rest)
        else .error (.illegalLongChoice body value)

/-! ### Letters -/

/-- What stands after an argument with letters, as its letters are read. -/
inductive Follower where
  /-- The argument is the last one. -/
  | missing
  /-- An argument that no letter has taken yet. -/
  | free (argument : Bytes)
  /-- A letter has taken it. -/
  | taken
deriving DecidableEq, Repr

/-- What stands after an argument, before any letter is read. -/
def Follower.ofRest : List Bytes → Follower
  | [] => .missing
  | next :: _ => .free next

/-- The arguments that are left after the letters. -/
def Follower.left (rest : List Bytes) : Follower → List Bytes
  | .taken => rest.drop 1
  | .missing | .free _ => rest

/-- Sets the flag of a letter. -/
def readLetterFlag (option : OptionSpec) (follower : Follower) (a : Arguments) :
    Arguments × Follower :=
  match follower with
  | .missing | .taken => (a.setFlag option true, follower)
  | .free next =>
    match truthWord? next with
    | some b => (a.setFlag option b, .taken)
    | none => (a.setFlag option true, follower)

/-- Gives the option of a letter a text; `argument` is the one with the
letters. -/
def readLetterText (argument : Bytes) (option : OptionSpec) (choices : List Bytes)
    (follower : Follower) (a : Arguments) : Except OptionError (Arguments × Follower) :=
  let take := fun value =>
    if isChoice choices value then .ok (a.setText option value, Follower.taken)
    else .error (.illegalChoice argument (a.texts.lookup option.name))
  match follower with
  | .missing => .error (.missingValue (0x2D :: Text.encode [option.letter]))
  | .free next => take next
  | .taken => take []

/-- Reads letters that stand together. -/
def readLetters (s : Spec) (argument : Bytes) :
    List Char → Follower → Arguments → Except OptionError (Arguments × Follower)
  | [], follower, a => .ok (a, follower)
  | letter :: letters, follower, a =>
    match s.allOptions.find? fun o => o.letter == letter with
    | none => .error (.unknown (0x2D :: Text.encode [letter]))
    | some option =>
      match option.kind with
      | .flag =>
        let (a, follower) := readLetterFlag option follower a
        readLetters s argument letters follower a
      | .text choices => do
        let (a, follower) ← readLetterText argument option choices follower a
        readLetters s argument letters follower a

/-- Gives the option of a single letter the value after its equals sign. -/
def readLetterValue (s : Spec) (letter : Char) (value : Bytes) (a : Arguments) :
    Except OptionError Arguments :=
  match s.allOptions.find? fun o => o.letter == letter with
  | none => .error (.unknown (0x2D :: Text.encode [letter]))
  | some option =>
    match option.kind with
    | .flag => .ok (a.setFlag option ((truthWord? value).getD false))
    | .text _ => .ok (a.setText option value)

/-- Reads an argument with letters, without its dash. -/
def readShort (s : Spec) (body : Bytes) (rest : List Bytes) (a : Arguments) :
    Except OptionError (Arguments × List Bytes) :=
  let together := fun (letters : Bytes) => do
    let (a, follower) ← readLetters s (0x2D :: body) (Text.chars letters) (.ofRest rest) a
    return (a, follower.left rest)
  let (name, value) := splitAtEquals body
  if value.isEmpty then together body
  else
    match Text.chars name with
    | [letter] => do return (← readLetterValue s letter value a, rest)
    | _ => together name

/-! ### All arguments -/

/-- Reads the first argument, and others that go with it. -/
def readFirst (s : Spec) (first : Bytes) (rest : List Bytes) (a : Arguments) :
    Except OptionError (Arguments × List Bytes) :=
  match first with
  | [] => .ok (a, rest)
  | 0x2D :: 0x2D :: [] => .error .emptyLong
  | 0x2D :: 0x2D :: body => readLong s body rest a
  | 0x2D :: body => readShort s body rest a
  | _ => .ok ({ a with positionals := a.positionals ++ [first] }, rest)

/-- Reads arguments, at most `n` of them one by one. -/
def readAll (s : Spec) : Nat → List Bytes → Arguments → Except OptionError Arguments
  | 0, _, a => .ok a
  | _, [], a => .ok a
  | n + 1, first :: rest, a => do
    let (a, rest) ← readFirst s first rest a
    readAll s n rest a

/-- Reads the arguments of a command. -/
def Spec.read (s : Spec) (args : List Bytes) : Except OptionError Request :=
  if args.isEmpty then .ok .help
  else do
    let a ← readAll s args.length args ⟨[], [], []⟩
    return if a.flag helpOption.name then .help else .run a

/-- What the arguments of a command ask for; a failure is its message. -/
def Spec.request (s : Spec) (args : List Bytes) : Except Bytes Request :=
  (s.read args).mapError OptionError.message

end Mos6502.Command
