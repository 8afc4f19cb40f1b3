/-
Mos6502/Command/Request.lean

What a command is asked for, once its options have been read.  A command goes
by this alone: how options are spelled is no concern of its own.
-/
import Mos6502.Command.Script

namespace Mos6502.Command

/-- The values that were given, the latest first, and the positional
arguments. -/
structure Arguments where
  flags : List (String × Bool)
  texts : List (String × Bytes)
  positionals : List Bytes
deriving DecidableEq, Repr

namespace Arguments

/-- Whether a flag is set. -/
def flag (a : Arguments) (name : String) : Bool :=
  (a.flags.lookup name).getD false

/-- The text of an option; empty if it was not given. -/
def text (a : Arguments) (name : String) : Bytes :=
  (a.texts.lookup name).getD []

/-- A positional argument by its place; empty if it was not given. -/
def positional (a : Arguments) (place : Nat) : Bytes :=
  a.positionals.getD place []

end Arguments

/-- What the options ask for. -/
inductive Request where
  /-- The user asks for help, or gives no arguments at all. -/
  | help
  | run (a : Arguments)
deriving DecidableEq, Repr

/-- Does what the options ask for.  That they cannot be read is a message. -/
def dispatch (help : Bytes) (command : Arguments → Script) : Except Bytes Request → Script
  | .error message => .done (.failure [] message)
  | .ok .help => .done (.success help)
  | .ok (.run a) => command a

end Mos6502.Command
