/-
Mos6502/Toml/Tree.lean

The tables of a document.  Statements are taken in order.  A header opens the
table that the following pairs go to, and makes the tables on the way to it
where they are missing; the way through an array of tables leads into its last
one.  A table made on the way, or written inline, may get a header later and
keeps its fields then; any other second definition is a conflict.

An inline table becomes a table under its key.  Inside an array it becomes one
more table of the array of tables under that key instead, and the array itself
gives no value.

The first fault in the order of the text is reported, with its line.
-/
import Mos6502.Text.Numeral
import Mos6502.Text.Utf8
import Mos6502.Toml.Grammar

namespace Mos6502.Toml

/-! ### Tables -/

/-- A value of a field. -/
inductive Value where
  /-- A number, a date or time, or a truth value, by its source text. -/
  | scalar (kind : ScalarKind) (source : Bytes)
  | string (contents : Bytes)
  | array (values : List Value)
deriving Repr

mutual

/-- A table: the line of its definition, whether it has a header of its own,
and its fields in order. -/
inductive Table where
  | mk (line : Nat) (explicit : Bool) (fields : List (Bytes × Field))

/-- What stands under a key. -/
inductive Field where
  /-- A value, with the line on which it ends. -/
  | value (line : Nat) (v : Value)
  | table (t : Table)
  /-- An array of tables: the first, and the later ones with the last in
  front. -/
  | tables (first : Table) (laterReversed : List Table)

end

namespace Table

/-- The line of the definition. -/
def line : Table → Nat
  | .mk line _ _ => line

/-- Whether the table has a header of its own. -/
def explicit : Table → Bool
  | .mk _ explicit _ => explicit

/-- The fields in order. -/
def fields : Table → List (Bytes × Field)
  | .mk _ _ fields => fields

/-- A table without fields. -/
def empty (line : Nat) (explicit : Bool) : Table :=
  .mk line explicit []

/-- The field under a key. -/
def get? (t : Table) (key : Bytes) : Option Field :=
  t.fields.lookup key

/-- Sets the field under a key; a new key comes last. -/
def set (t : Table) (key : Bytes) (field : Field) : Table :=
  if (t.get? key).isSome then
    .mk t.line t.explicit
      (t.fields.map fun (k, f) => if k == key then (k, field) else (k, f))
  else .mk t.line t.explicit (t.fields ++ [(key, field)])

end Table

/-! ### Faults -/

/-- Why the tables of a document cannot be put together. -/
inductive Conflict where
  /-- A text in quotes holds an escape that stands for no character. -/
  | badEscape
  /-- A key that has a value already. -/
  | keyTwice (key : Bytes) (line : Nat)
  /-- A key that names a table. -/
  | keyIsTable (key : Bytes) (line : Nat)
  /-- A key that names an array of tables. -/
  | keyIsTables (key : Bytes)
  /-- A header whose table has a header already. -/
  | tableTwice (name : Bytes) (line : Nat)
  | tableIsTables (name : Bytes) (line : Nat)
  | tableIsValue (name : Bytes) (line : Nat)
  | tablesIsTable (name : Bytes) (line : Nat)
  | tablesIsValue (name : Bytes) (line : Nat)
  /-- A part of a dotted name that has a value. -/
  | partIsValue (key : Bytes) (line : Nat)
deriving DecidableEq, Repr

/-- A name between a backtick and an apostrophe. -/
def tick (name : Bytes) : Bytes :=
  0x60 :: (name ++ [0x27])

/-- The text of a conflict. -/
def Conflict.message : Conflict → Bytes
  | .badEscape => ascii "invalid syntax"
  | .keyTwice key line =>
    ascii "key " ++ tick key ++ ascii " is in conflict with line " ++ Numeral.lowerHex line ++
      ascii "d"
  | .keyIsTable key line =>
    ascii "key " ++ tick key ++ ascii " is in conflict with table in line " ++ Numeral.nat line
  | .keyIsTables key =>
    ascii "BUG: key " ++ tick key ++ ascii " is in conflict but it's unknown type " ++
      tick (ascii "[]*ast.Table")
  | .tableTwice name line =>
    ascii "table " ++ tick name ++ ascii " is in conflict with table in line " ++
      Numeral.nat line
  | .tableIsTables name line =>
    ascii "table " ++ tick name ++ ascii " is in conflict with array table in line " ++
      Numeral.nat line
  | .tableIsValue name line =>
    ascii "table " ++ tick name ++ ascii " is in conflict with line " ++ Numeral.nat line
  | .tablesIsTable name line =>
    ascii "array table " ++ tick name ++ ascii " is in conflict with table in line " ++
      Numeral.nat line
  | .tablesIsValue name line =>
    ascii "array table " ++ tick name ++ ascii " is in conflict with line " ++ Numeral.nat line
  | .partIsValue key line =>
    ascii "key " ++ tick key ++ ascii " is in conflict with line " ++ Numeral.nat line

/-- A conflict on a line. -/
structure ConflictError where
  line : Nat
  cause : Conflict
deriving DecidableEq, Repr

/-! ### Escapes -/

/-- The value of a hexadecimal digit. -/
def hexCharValue (c : Char) : Nat :=
  (Numeral.hexValue? c.toUInt8).getD 0

/-- The character with a number in hexadecimal digits; none for surrogates and
numbers past U+10FFFF. -/
def charOfHex? (digits : List Char) : Option Char :=
  let n := Numeral.positional 16 (digits.map hexCharValue)
  if n.isValidChar then some (Char.ofNat n) else none

/-- The character of a one-letter escape; the slash has none. -/
def escapedChar? : Char → Option Char
  | 'b' => some (Char.ofNat 8)
  | 't' => some '\t'
  | 'n' => some '\n'
  | 'f' => some (Char.ofNat 12)
  | 'r' => some '\r'
  | '"' => some '"'
  | '\\' => some '\\'
  | _ => none

/-- A text with its escapes read. -/
def unescape : List Char → Option (List Char)
  | '\\' :: 'u' :: a :: b :: c :: d :: rest => do
    let ch ← charOfHex? [a, b, c, d]
    return ch :: (← unescape rest)
  | '\\' :: 'U' :: a :: b :: c :: d :: e :: f :: g :: h :: rest => do
    let ch ← charOfHex? [a, b, c, d, e, f, g, h]
    return ch :: (← unescape rest)
  | '\\' :: c :: rest => do
    let ch ← escapedChar? c
    return ch :: (← unescape rest)
  | c :: rest => do
    return c :: (← unescape rest)
  | [] => some []

/-- The contents of a text, or the fault of its line. -/
def QuotedText.contents (line : Nat) : QuotedText → Except ConflictError Bytes
  | .plain contents => .ok (Text.encode contents)
  | .escaped contents =>
    match unescape contents with
    | some contents => .ok (Text.encode contents)
    | none => .error ⟨line, .badEscape⟩

/-- The contents of a key. -/
def Key.name (k : Key) : Except ConflictError Bytes :=
  k.text.contents k.line

/-! ### Building -/

/-- Changes the table at the end of a path.  Missing tables on the way are
made; an array of tables is entered at its last one. -/
def Table.alter (line : Nat) (f : Table → Except ConflictError Table) :
    List Bytes → Table → Except ConflictError Table
  | [], t => f t
  | key :: path, t =>
    match t.get? key with
    | none => do
      return t.set key (.table (← alter line f path (Table.empty line false)))
    | some (.table sub) => do
      return t.set key (.table (← alter line f path sub))
    | some (.tables first []) => do
      return t.set key (.tables (← alter line f path first) [])
    | some (.tables first (last :: others)) => do
      return t.set key (.tables first ((← alter line f path last) :: others))
    | some (.value valueLine _) => .error ⟨line, .partIsValue key valueLine⟩

/-- Defines a table under a key.  One that has no header yet keeps its
fields. -/
def Table.define (line : Nat) (explicit : Bool) (name key : Bytes) (parent : Table) :
    Except ConflictError Table :=
  match parent.get? key with
  | none => .ok (parent.set key (.table (.empty line explicit)))
  | some (.tables first _) => .error ⟨line, .tableIsTables name first.line⟩
  | some (.table t) =>
    if t.explicit then .error ⟨line, .tableTwice name t.line⟩
    else .ok (parent.set key (.table (.mk line explicit t.fields)))
  | some (.value valueLine _) => .error ⟨line, .tableIsValue name valueLine⟩

/-- Adds a table to the array of tables under a key. -/
def Table.append (line : Nat) (name key : Bytes) (parent : Table) : Except ConflictError Table :=
  match parent.get? key with
  | none => .ok (parent.set key (.tables (.empty line true) []))
  | some (.tables first later) => .ok (parent.set key (.tables first (.empty line true :: later)))
  | some (.table t) => .error ⟨line, .tablesIsTable name t.line⟩
  | some (.value valueLine _) => .error ⟨line, .tablesIsValue name valueLine⟩

/-- Adds a value under a key. -/
def Table.addValue (line : Nat) (key : Bytes) (v : Value) (t : Table) :
    Except ConflictError Table :=
  match t.get? key with
  | none => .ok (t.set key (.value line v))
  | some (.table sub) => .error ⟨line, .keyIsTable key sub.line⟩
  | some (.value valueLine _) => .error ⟨line, .keyTwice key valueLine⟩
  | some (.tables ..) => .error ⟨line, .keyIsTables key⟩

mutual

/-- Adds what a value brings to the tables: nothing, or the inline tables in
it.  The result is the value itself, unless inline tables stand for it. -/
def addItem (root : Table) (path : List Bytes) (key : Bytes) (inArray : Bool) :
    Item → Except ConflictError (Table × Option Value)
  | .scalar kind source => .ok (root, some (.scalar kind (Text.encode source)))
  | .string line text => do
    return (root, some (.string (← text.contents line)))
  | .array items => do
    let (root, values) ← addItems root path key items
    return (root, values.map .array)
  | .table line entries => do
    let define := if inArray then Table.append line key key else Table.define line false key key
    let root ← root.alter line define path
    let root ← addEntries root (path ++ [key]) inArray entries
    return (root, none)

/-- Adds the values of an array.  It gives a value only if all of them do. -/
def addItems (root : Table) (path : List Bytes) (key : Bytes) :
    List Item → Except ConflictError (Table × Option (List Value))
  | [] => .ok (root, some [])
  | item :: items => do
    let (root, value) ← addItem root path key true item
    let (root, values) ← addItems root path key items
    return (root, value.bind fun v => values.map (v :: ·))

/-- Adds the pairs of an inline table. -/
def addEntries (root : Table) (path : List Bytes) (inArray : Bool) :
    List (Key × Item × Nat) → Except ConflictError Table
  | [] => .ok root
  | (key, item, line) :: entries => do
    let name ← key.name
    let (root, value) ← addItem root path name inArray item
    let root ← match value with
      | some v => root.alter line (Table.addValue line name v) path
      | none => .ok root
    addEntries root path inArray entries

end

/-- The tables so far, and the path of the table that pairs go to. -/
structure Builder where
  root : Table
  current : List Bytes

/-- The last part of a path and what is in front of it. -/
def splitLast (path : List Bytes) : List Bytes × Bytes :=
  (path.dropLast, path.getLastD [])

/-- Takes one statement. -/
def Builder.step (b : Builder) : Statement → Except ConflictError Builder
  | .table line name keys => do
    let path ← keys.mapM Key.name
    let (parents, last) := splitLast path
    let root ← b.root.alter line (Table.define line true (Text.encode name) last) parents
    return ⟨root, path⟩
  | .arrayTable line name keys => do
    let path ← keys.mapM Key.name
    let (parents, last) := splitLast path
    let root ← b.root.alter line (Table.append line (Text.encode name) last) parents
    return ⟨root, path⟩
  | .entry e => do
    let root ← addEntries b.root b.current false [(e.key, e.item, e.line)]
    return ⟨root, b.current⟩

/-- The top-level table of a document. -/
def tableOf (statements : List Statement) : Except ConflictError Table := do
  let b ← statements.foldlM Builder.step ⟨.empty 1 true, []⟩
  return b.root

end Mos6502.Toml
