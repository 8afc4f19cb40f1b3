/-
Mos6502/Settings/Decode.lean

Settings from the tables of a TOML document.  Keys are matched without regard
to case and underscores, except `extern`, which is matched as it is; a key
that names no setting is a fault.  An address may be a number or a text; any
value but a text counts by its source.

Every fault names its line.  A value of the wrong type also names the setting;
a table in place of a value does not.
-/
import Mos6502.Settings.Address
import Mos6502.Settings.Basic
import Mos6502.Toml.Datetime
import Mos6502.Toml.Float
import Mos6502.Toml.Tree

namespace Mos6502

/-! ### Failures -/

/-- A fault in a settings file. -/
structure DecodeError where
  line : Nat
  /-- The setting at fault, where it is named. -/
  setting : Option String
  text : Bytes
deriving DecidableEq, Repr

/-- The text of a decoding error. -/
def DecodeError.message (e : DecodeError) : Bytes :=
  let setting := match e.setting with
    | some s => ascii ("(" ++ s ++ ") ")
    | none => []
  atLine e.line (setting ++ e.text)

/-- The words for a value of the wrong type: what it is, the type that is
wanted, and what would do, if that is to be said. -/
def wrongType (what wanted need : String) : Bytes :=
  ascii ("cannot unmarshal TOML " ++ what ++ " into " ++ wanted) ++
    (if need.isEmpty then [] else ascii (" (need " ++ need ++ ")"))

namespace Decode

open Toml

/-- A place in the settings that takes a value: its full name and the name of
its type. -/
structure Slot where
  name : String
  type : String

/-! ### Values -/

/-- The name of a kind of scalar. -/
def kindName : ScalarKind → String
  | .datetime => "datetime"
  | .float => "float"
  | .integer => "integer"
  | .boolean => "boolean"

/-- The words for a value where another type is wanted.  A date that does not
exist and a float that is too large are faults of their own. -/
def mismatch (wanted : String) : Toml.Value → Bytes
  | .scalar kind source =>
    let own := match kind with
      | .datetime => datetimeMessage? source
      | .float => floatMessage? source
      | .integer | .boolean => none
    own.getD (wrongType (kindName kind) wanted "")
  | .string _ => wrongType "string" wanted ""
  | .array _ => wrongType "array" wanted "slice"

/-- A table in place of a value. -/
def tableError (slot : Slot) (t : Table) : DecodeError :=
  ⟨t.line, none, wrongType "table" slot.type "struct or map"⟩

/-- An array of tables in place of a value. -/
def tablesError (slot : Slot) (first : Table) : DecodeError :=
  ⟨first.line, some slot.name, wrongType "array table" slot.type "slice"⟩

/-- An address. -/
def address (slot : Slot) : Field → Except DecodeError UInt16
  | .table t => .error (tableError slot t)
  | .tables first _ => .error (tablesError slot first)
  | .value line (.array _) => .error ⟨line, some slot.name, wrongType "array" slot.type ""⟩
  | .value line (.string text) | .value line (.scalar _ text) =>
    match parseAddress text with
    | .ok a => .ok a
    | .error e => .error ⟨line, some slot.name, e.message⟩

/-- A text. -/
def text (slot : Slot) : Field → Except DecodeError Bytes
  | .table t => .error (tableError slot t)
  | .tables first _ => .error (tablesError slot first)
  | .value _ (.string contents) => .ok contents
  | .value line v => .error ⟨line, some slot.name, mismatch slot.type v⟩

/-! ### Settings -/

/-- The line of a field: that of its definition, of the first one for an array
of tables. -/
def fieldLine : Field → Nat
  | .value line _ => line
  | .table t => t.line
  | .tables first _ => first.line

/-- A key in lower case and without underscores, as far as the result is
ASCII: U+0130 is read as `i` and U+212A as `k`. -/
def normalize : Bytes → Bytes
  | 0xC4 :: 0xB0 :: rest => 0x69 :: normalize rest
  | 0xE2 :: 0x84 :: 0xAA :: rest => 0x6B :: normalize rest
  | 0x5F :: rest => normalize rest
  | b :: rest => (if 0x41 ≤ b && b ≤ 0x5A then b + 0x20 else b) :: normalize rest
  | [] => []

/-- A key that names no setting. -/
def unknownKey (line : Nat) (key : Bytes) (owner : String) : DecodeError :=
  ⟨line, none, ascii "field '" ++ key ++ ascii ("' is not defined in " ++ owner)⟩

/-- Sets one field of an extern. -/
def externField (e : Extern) (key : Bytes) (field : Field) : Except DecodeError Extern :=
  if normalize key == ascii "name" then do
    return { e with name := ← text ⟨"config.Extern.Name", "string"⟩ field }
  else if normalize key == ascii "value" then do
    return { e with value := ← address ⟨"config.Extern.Value", "config.Address"⟩ field }
  else .error (unknownKey (fieldLine field) key "config.Extern")

/-- An extern from its table. -/
def externOf (t : Table) : Except DecodeError Extern :=
  t.fields.foldlM (fun e (key, field) => externField e key field) ⟨[], 0⟩

/-- The list of externs. -/
def externs (field : Field) : Except DecodeError (List Extern) :=
  let slot : Slot := ⟨"config.Config.Externs", "[]config.Extern"⟩
  match field with
  | .table t => .error (tableError slot t)
  | .tables first later => (first :: later.reverse).mapM externOf
  | .value _ (.array []) => .ok []
  | .value line (.array (v :: _)) =>
    .error ⟨line, some slot.name, mismatch "config.Extern" v⟩
  | .value line v =>
    .error ⟨line, some slot.name, mismatch slot.type v⟩

/-- Sets one setting. -/
def setting (s : Settings) (key : Bytes) (field : Field) : Except DecodeError Settings :=
  if key == ascii "extern" then do
    return { s with externs := ← externs field }
  else if normalize key == ascii "origin" then do
    return { s with origin := ← address ⟨"config.Config.Origin", "config.Address"⟩ field }
  else if normalize key == ascii "format" then do
    return { s with format := ← text ⟨"config.Config.Format", "string"⟩ field }
  else if normalize key == ascii "output" then do
    return { s with output := ← text ⟨"config.Config.Output", "string"⟩ field }
  else .error (unknownKey (fieldLine field) key "config.Config")

end Decode

/-! ### Files -/

/-- Why a settings file cannot be used. -/
inductive SettingsError where
  /-- It is no TOML document; reading stopped at a line. -/
  | notToml (line : Nat)
  /-- Its tables are in conflict, or hold something that is no setting. -/
  | content (cause : DecodeError)
  | invalid (cause : Settings.Invalid)
deriving DecidableEq, Repr

/-- The text of a settings error. -/
def SettingsError.message : SettingsError → Bytes
  | .notToml line => atLine line (ascii "invalid TOML syntax")
  | .content cause => cause.message
  | .invalid cause => cause.message

/-- The class of a settings error. -/
def SettingsError.fault : SettingsError → Fault
  | .notToml line => .other (SettingsError.notToml line).message
  | .content cause => .other cause.message
  | .invalid cause => cause.fault

instance : Diagnostic SettingsError where
  fault := SettingsError.fault
  message := SettingsError.message
  symbol? _ := none

namespace Settings

/-- Sets what a table says. -/
def applyTable (t : Toml.Table) (s : Settings) : Except DecodeError Settings :=
  t.fields.foldlM (fun s (key, field) => Decode.setting s key field) s

/-- Sets what the text of a file says. -/
def decode : Decoder SettingsError := fun source s =>
  match Toml.parseDocument (Text.chars source) with
  | .error line => .error (.notToml line)
  | .ok statements =>
    match Toml.tableOf statements with
    | .error e => .error (.content ⟨e.line, none, e.cause.message⟩)
    | .ok table => (applyTable table s).mapError .content

/-- Sets what the text of a file says; a failure is its message. -/
def decodeText : Decoder Bytes := fun source s =>
  (decode source s).mapError SettingsError.message

/-- Settings from the text of a file. -/
def load (source : Bytes) : Except SettingsError Settings :=
  loadWith decode .invalid source

end Settings

end Mos6502
