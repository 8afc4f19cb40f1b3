/-
Mos6502/Toml/Grammar.lean

The grammar of TOML documents.  A document is a sequence of expressions
between line ends: a table header, a key-value pair, or nothing, each with a
comment after it if one is there.  After a header any number of key-value
pairs may follow with only blanks between them.

Alternatives are tried in order and the first that matches is taken for good.
A value is, in this order, a date or time, a float, an integer, a text, a
truth value, an array or an inline table.

Every step of reading a value consumes a character, so the number of
characters left bounds the number of steps.
-/
import Mos6502.Toml.Document

namespace Mos6502.Toml

/-- A place in a document: what is left of it, and the line. -/
structure Cursor where
  rest : List Char
  line : Nat

/-! ### Characters -/

/-- A carriage return or a line feed. -/
def isLineEnd (c : Char) : Bool :=
  c == '\r' || c == '\n'

/-- A space or a tab. -/
def isGap (c : Char) : Bool :=
  c == ' ' || c == '\t'

/-- A character that a bare key may hold. -/
def isBareKeyChar (c : Char) : Bool :=
  c.isAlphanum || c == '-' || c == '_'

/-- A character of a comment: a tab, or no control character below U+0020. -/
def isCommentChar (c : Char) : Bool :=
  c == '\t' || ' ' ≤ c

/-- A character that stands for itself in a text with escapes. -/
def isUnescaped (c : Char) : Bool :=
  ' ' ≤ c && c != '"' && c != '\\'

/-- A character of a literal text. -/
def isLiteralChar (c : Char) : Bool :=
  isCommentChar c && c != '\''

/-- A hexadecimal digit of either case. -/
def isHexChar (c : Char) : Bool :=
  c.isDigit || ('a' ≤ c && c ≤ 'f') || ('A' ≤ c && c ≤ 'F')

/-! ### Blanks and comments -/

/-- Skips spaces and tabs. -/
def Cursor.skipGaps (c : Cursor) : Cursor :=
  { c with rest := c.rest.dropWhile isGap }

/-- Skips spaces, tabs and line ends. -/
def Cursor.skipBlanks (c : Cursor) : Cursor :=
  let isBlank := fun ch => isGap ch || isLineEnd ch
  ⟨c.rest.dropWhile isBlank, c.line + (c.rest.takeWhile isBlank).countP isLineEnd⟩

/-- Skips a comment, if one starts here. -/
def Cursor.skipComment (c : Cursor) : Cursor :=
  match c.rest with
  | '#' :: rest => { c with rest := rest.dropWhile isCommentChar }
  | _ => c

/-- Skips one or more line ends. -/
def Cursor.lineEnds? (c : Cursor) : Option Cursor :=
  let ends := c.rest.takeWhile isLineEnd
  if ends.isEmpty then none else some ⟨c.rest.drop ends.length, c.line + ends.length⟩

/-- Skips a given text. -/
def Cursor.skip? (c : Cursor) (text : String) : Option Cursor :=
  if text.toList.isPrefixOf c.rest then some { c with rest := c.rest.drop text.length } else none

/-! ### Numbers, dates and times

Each reader returns what it takes off the front of the text, and the rest. -/

/-- A reader of one piece of text. -/
abbrev Piece := List Char → Option (List Char × List Char)

/-- One piece after another. -/
def Piece.andThen (first second : Piece) : Piece := fun s => do
  let (a, rest) ← first s
  let (b, rest) ← second rest
  return (a ++ b, rest)

/-- The first of two pieces that matches. -/
def Piece.orElse (first second : Piece) : Piece := fun s =>
  match first s with
  | some r => some r
  | none => second s

/-- A piece that may be missing. -/
def Piece.optional (piece : Piece) : Piece := fun s =>
  match piece s with
  | some r => some r
  | none => some ([], s)

/-- One character of a class. -/
def oneOf (p : Char → Bool) : Piece
  | c :: rest => if p c then some ([c], rest) else none
  | [] => none

/-- One given character. -/
def exactly (c : Char) : Piece :=
  oneOf (· == c)

/-- A digit. -/
def digit : Piece :=
  oneOf Char.isDigit

/-- So many pieces in a row. -/
def Piece.times (piece : Piece) : Nat → Piece
  | 0 => fun s => some ([], s)
  | n + 1 => piece.andThen (piece.times n)

/-- Any number of digits, each with at most one underscore before it. -/
def moreDigits : Piece
  | '_' :: c :: rest =>
    if c.isDigit then (moreDigits rest).map fun (ds, r) => ('_' :: c :: ds, r)
    else some ([], '_' :: c :: rest)
  | c :: rest =>
    if c.isDigit then (moreDigits rest).map fun (ds, r) => (c :: ds, r)
    else some ([], c :: rest)
  | [] => some ([], [])

/-- A digit and more. -/
def someDigits : Piece :=
  digit.andThen moreDigits

/-- A plus or minus sign. -/
def sign : Piece :=
  oneOf fun c => c == '-' || c == '+'

/-- An integer without sign: one digit, or more that do not start with
zero. -/
def unsigned : Piece := fun s =>
  match s with
  | c :: rest =>
    if !c.isDigit then none
    else
      match moreDigits rest with
      | some (d :: ds, r) => if c == '0' then some ([c], rest) else some (c :: d :: ds, r)
      | _ => some ([c], rest)
  | [] => none

/-- An integer. -/
def integer : Piece :=
  (Piece.optional sign).andThen unsigned

/-- The digits after the point. -/
def fraction : Piece :=
  (exactly '.').andThen someDigits

/-- The power of ten. -/
def exponent : Piece :=
  (oneOf fun c => c == 'e' || c == 'E').andThen ((Piece.optional sign).andThen someDigits)

/-- A float: an integer with a fraction, an exponent or both. -/
def float : Piece :=
  integer.andThen ((fraction.andThen exponent.optional).orElse exponent)

/-- `hh:mm` -/
def hourMinute : Piece :=
  (digit.times 2).andThen ((exactly ':').andThen (digit.times 2))

/-- One or more digits. -/
def plainDigits : Piece := fun s =>
  let ds := s.takeWhile Char.isDigit
  if ds.isEmpty then none else some (ds, s.drop ds.length)

/-- `hh:mm:ss`, perhaps with a fraction. -/
def partialTime : Piece :=
  hourMinute.andThen ((exactly ':').andThen
    ((digit.times 2).andThen ((exactly '.').andThen plainDigits).optional))

/-- A time, perhaps with its offset from universal time. -/
def fullTime : Piece :=
  partialTime.andThen ((exactly 'Z').orElse (sign.andThen hourMinute)).optional

/-- `yyyy-mm-dd` -/
def fullDate : Piece :=
  (digit.times 4).andThen ((exactly '-').andThen
    ((digit.times 2).andThen ((exactly '-').andThen (digit.times 2))))

/-- A date, a date with a time, or a time. -/
def datetime : Piece :=
  (fullDate.andThen ((exactly 'T').andThen fullTime).optional).orElse partialTime

/-- `true` or `false` -/
def boolean : Piece := fun s =>
  if "true".toList.isPrefixOf s then some ("true".toList, s.drop 4)
  else if "false".toList.isPrefixOf s then some ("false".toList, s.drop 5)
  else none

/-- A value that is written without quotes or brackets. -/
def scalar? (c : Cursor) : Option (Item × Cursor) :=
  let attempt := fun (piece : Piece) kind =>
    (piece c.rest).map fun (source, rest) => (Item.scalar kind source, { c with rest := rest })
  (attempt datetime .datetime).or ((attempt float .float).or (attempt integer .integer))

/-! ### Texts -/

/-- One escape, as written. -/
def escape : Piece
  | '\\' :: 'u' :: rest => ((oneOf isHexChar).times 4 rest).map fun (ds, r) => ('\\' :: 'u' :: ds, r)
  | '\\' :: 'U' :: rest => ((oneOf isHexChar).times 8 rest).map fun (ds, r) => ('\\' :: 'U' :: ds, r)
  | '\\' :: c :: rest =>
    if "btnfr\"/\\".toList.contains c then some (['\\', c], rest) else none
  | _ => none

/-- One character of a text with escapes. -/
def basicChar : Piece :=
  (oneOf isUnescaped).orElse escape

/-- As many characters of a text with escapes as there are; at most `n`. -/
def basicChars : Nat → List Char → List Char × List Char
  | 0, s => ([], s)
  | n + 1, s =>
    match basicChar s with
    | none => ([], s)
    | some (piece, rest) =>
      let (more, rest) := basicChars n rest
      (piece ++ more, rest)

/-- A text in double quotes, on one line. -/
def basicString? (c : Cursor) : Option (QuotedText × Cursor) :=
  match c.rest with
  | '"' :: rest =>
    match basicChars rest.length rest with
    | (contents, '"' :: rest) => some (.escaped contents, { c with rest := rest })
    | _ => none
  | _ => none

/-- The body of a text over several lines, of at most `n` pieces.  A backslash
at the end of a line takes the line end and the blanks after it away. -/
def multilineBody : Nat → Cursor → List Char → List Char × Cursor
  | 0, c, acc => (acc, c)
  | n + 1, c, acc =>
    match basicChar c.rest with
    | some (piece, rest) => multilineBody n { c with rest := rest } (acc ++ piece)
    | none =>
      match c.lineEnds? with
      | some after =>
        multilineBody n after (acc ++ c.rest.take (c.rest.length - after.rest.length))
      | none =>
        match c.rest with
        | '\\' :: rest =>
          match Cursor.lineEnds? { c with rest := rest } with
          | some after => multilineBody n after.skipBlanks acc
          | none => (acc, c)
        | _ => (acc, c)

/-- A text in three double quotes. -/
def multilineBasic? (c : Cursor) : Option (QuotedText × Cursor) := do
  let start ← c.skip? "\"\"\""
  let (contents, c) := multilineBody start.rest.length start []
  let c ← c.skip? "\"\"\""
  return (.escaped (contents.dropWhile isLineEnd), c)

/-- A text in single quotes. -/
def literalString? (c : Cursor) : Option (QuotedText × Cursor) :=
  match c.rest with
  | '\'' :: rest =>
    match rest.dropWhile isLiteralChar with
    | '\'' :: after => some (.plain (rest.takeWhile isLiteralChar), { c with rest := after })
    | _ => none
  | _ => none

/-- The text up to three single quotes, and what follows it. -/
def upToQuotes : List Char → Option (List Char × List Char)
  | '\'' :: '\'' :: '\'' :: rest => some ([], rest)
  | c :: rest =>
    if isCommentChar c || isLineEnd c then (upToQuotes rest).map fun (s, r) => (c :: s, r) else none
  | [] => none

/-- A text in three single quotes. -/
def multilineLiteral? (c : Cursor) : Option (QuotedText × Cursor) := do
  let start ← c.skip? "'''"
  let (contents, rest) ← upToQuotes start.rest
  return (.plain (contents.dropWhile isLineEnd), ⟨rest, c.line + contents.countP isLineEnd⟩)

/-- A text in quotes of any kind. -/
def string? (c : Cursor) : Option (Item × Cursor) :=
  ((multilineLiteral? c).or ((literalString? c).or ((multilineBasic? c).or (basicString? c)))).map
    fun (text, after) => (Item.string after.line text, after)

/-! ### Keys -/

/-- A bare or quoted key; a quoted one may be empty. -/
def key? (c : Cursor) : Option (Key × Cursor) :=
  let bare := c.rest.takeWhile isBareKeyChar
  if !bare.isEmpty then
    some (⟨c.line, .plain bare⟩, { c with rest := c.rest.drop bare.length })
  else
    (basicString? c).map fun (text, after) => (⟨c.line, text⟩, after)

/-- The further parts of a dotted key, at most `n`. -/
def moreKeys : Nat → Cursor → List Key × Cursor
  | 0, c => ([], c)
  | n + 1, c =>
    match c.skipGaps.skip? "." with
    | none => ([], c)
    | some after =>
      match key? after.skipGaps with
      | none => ([], c)
      | some (key, after) =>
        let (keys, after) := moreKeys n after
        (key :: keys, after)

/-- The name of a table: keys with dots between them, also as written. -/
def tableName? (c : Cursor) : Option (List Char × List Key × Cursor) := do
  let (first, after) ← key? c
  let (more, after) := moreKeys after.rest.length after
  return (c.rest.take (c.rest.length - after.rest.length), first :: more, after)

/-! ### Values -/

/-- A comma in an array, with blanks and comments around it. -/
def arraySeparator? (c : Cursor) : Option Cursor :=
  (c.skipBlanks.skipComment.skipBlanks.skip? ",").map fun after =>
    after.skipBlanks.skipComment.skipBlanks

/-- What may stand between the last value of an array and its bracket. -/
def arrayTail (c : Cursor) : Cursor :=
  let c := c.skipBlanks
  ((c.skip? ",").getD c).skipBlanks.skipComment.skipBlanks

mutual

/-- A value, read in at most `n` nested steps. -/
def item? : Nat → Cursor → Option (Item × Cursor)
  | 0, _ => none
  | n + 1, c =>
    match (scalar? c).or (string? c) with
    | some r => some r
    | none =>
      match boolean c.rest with
      | some (source, rest) => some (.scalar .boolean source, { c with rest := rest })
      | none =>
        match c.rest with
        | '[' :: rest => array? n (Cursor.skipBlanks { c with rest := rest })
        | '\x7b' :: rest =>
          let start := Cursor.skipGaps { c with rest := rest }
          let (entries, after) := inlineEntries n start
          (after.skipGaps.skip? "\x7d").map fun after => (.table c.line entries, after)
        | _ => none

/-- The values of an array and its closing bracket. -/
def array? : Nat → Cursor → Option (Item × Cursor)
  | 0, _ => none
  | n + 1, c =>
    match item? n c with
    | none => (c.skipBlanks.skip? "]").map fun after => (.array [], after)
    | some (first, after) =>
      let (more, after) := moreItems n after
      ((arrayTail after).skip? "]").map fun after => (.array (first :: more), after)

/-- The further values of an array, each after a comma. -/
def moreItems : Nat → Cursor → List Item × Cursor
  | 0, c => ([], c)
  | n + 1, c =>
    match arraySeparator? c with
    | none => ([], c)
    | some next =>
      match item? n next with
      | none => ([], c)
      | some (first, after) =>
        let (more, after) := moreItems n after
        (first :: more, after)

/-- The key-value pairs of an inline table; a comma may follow each. -/
def inlineEntries : Nat → Cursor → List (Key × Item × Nat) × Cursor
  | 0, c => ([], c)
  | n + 1, c =>
    match keyValue? n c with
    | none => ([], c)
    | some (entry, after) =>
      let next := ((after.skipGaps.skip? ",").map Cursor.skipGaps).getD after
      let (more, after) := inlineEntries n next
      (entry :: more, after)

/-- A key-value pair. -/
def keyValue? : Nat → Cursor → Option ((Key × Item × Nat) × Cursor)
  | 0, _ => none
  | n + 1, c =>
    match key? c with
    | none => none
    | some (key, after) =>
      match after.skipGaps.skip? "=" with
      | none => none
      | some after =>
        match item? n after.skipGaps with
        | none => none
        | some (item, after) => some ((key, item, after.line), after)

end

/-! ### Documents -/

/-- A key-value pair of the document. -/
def pair? (c : Cursor) : Option (Entry × Cursor) :=
  (keyValue? (2 * c.rest.length + 2) c).map fun ((key, item, line), after) => (⟨key, item, line⟩, after)

/-- The header `[name]` or `[[name]]`. -/
def header? (c : Cursor) : Option (Statement × Cursor) :=
  let single := do
    let start ← c.skip? "["
    let (name, keys, after) ← tableName? start.skipGaps
    let after ← after.skipGaps.skip? "]"
    return (Statement.table after.line name keys, after)
  let double := do
    let start ← c.skip? "[["
    let (name, keys, after) ← tableName? start.skipGaps
    let after ← after.skipGaps.skip? "]]"
    return (Statement.arrayTable after.line name keys, after)
  single.or double

/-- The key-value pairs after a header, at most `n`. -/
def tableEntries : Nat → Cursor → List Statement × Cursor
  | 0, c => ([], c)
  | n + 1, c =>
    match pair? c.skipBlanks with
    | none => ([], c)
    | some (e, after) =>
      let (more, after) := tableEntries n after.skipGaps.skipComment
      (.entry e :: more, after)

/-- What stands between two line ends; perhaps nothing. -/
def expression (c : Cursor) : List Statement × Cursor :=
  let start := c.skipGaps
  match header? start with
  | some (header, after) =>
    let (entries, after) := tableEntries after.rest.length after.skipGaps.skipComment
    (header :: entries, after)
  | none =>
    match pair? start with
    | some (e, after) => ([.entry e], after.skipGaps.skipComment)
    | none => ([], start.skipComment)

/-- The further expressions of a document, at most `n`. -/
def moreExpressions : Nat → Cursor → List Statement × Cursor
  | 0, c => ([], c)
  | n + 1, c =>
    match c.lineEnds? with
    | none => ([], c)
    | some next =>
      let (statements, after) := expression next
      let (more, after) := moreExpressions n after
      (statements ++ more, after)

/-- Reads a document; where it cannot be read, the line that reading
reached. -/
def parseDocument (text : List Char) : Except Nat (List Statement) :=
  let (first, after) := expression ⟨text, 1⟩
  let (more, after) := moreExpressions text.length after
  if after.rest.isEmpty then .ok (first ++ more) else .error after.line

end Mos6502.Toml
