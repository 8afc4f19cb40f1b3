/-
Mos6502/Toml/Document.lean

A TOML document as it is written: table headers and key-value pairs in order,
with the lines they stand on.  Lines are counted from one, and every carriage
return and every line feed starts a new one.

Nothing is interpreted yet.  A number keeps its source text, and a text in
double quotes keeps its escapes; whether the escapes can be read and whether
two keys are in conflict is found out when the tables are put together.
-/
import Mos6502.Bytes

namespace Mos6502.Toml

/-- A text between quotes, or a bare key. -/
inductive QuotedText where
  /-- A text that stands for itself. -/
  | plain (contents : List Char)
  /-- A text with escapes. -/
  | escaped (contents : List Char)
deriving Repr

/-- A key and the line it stands on. -/
structure Key where
  line : Nat
  text : QuotedText
deriving Repr

/-- The kinds of value that are written without quotes or brackets. -/
inductive ScalarKind where
  | datetime
  | float
  | integer
  | boolean
deriving DecidableEq, Repr

/-- A value as written. -/
inductive Item where
  /-- A number, a date or time, or a truth value, by its source text. -/
  | scalar (kind : ScalarKind) (source : List Char)
  /-- A text, with the line on which it ends. -/
  | string (line : Nat) (text : QuotedText)
  | array (items : List Item)
  /-- An inline table, with the line of its opening brace.  Each entry has the
  line on which its value ends. -/
  | table (line : Nat) (entries : List (Key × Item × Nat))
deriving Repr

/-- A key-value pair, with the line on which its value ends. -/
structure Entry where
  key : Key
  item : Item
  line : Nat
deriving Repr

/-- A header or a key-value pair of a document. -/
inductive Statement where
  /-- `[name]`, with the name as written and its parts. -/
  | table (line : Nat) (name : List Char) (keys : List Key)
  /-- `[[name]]` -/
  | arrayTable (line : Nat) (name : List Char) (keys : List Key)
  /-- `key = value` -/
  | entry (e : Entry)
deriving Repr

end Mos6502.Toml
