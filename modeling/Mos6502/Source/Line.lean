/-
Mos6502/Source/Line.lean

Reading assembly text.  A text is split at its line feeds.  Of each line the
comment after the first `;` is cut off and white space at the edges is
trimmed; this takes a carriage return at the end of a line with it.  What is
left starts with any number of label declarations, each an identifier and a
colon, and may go on with a mnemonic and its operand.

A line gives one node, or none if nothing is left of it; the last node marks
the end of the text and carries the number of lines.  The first line that
cannot be read is the one reported.
-/
import Mos6502.Fault
import Mos6502.Source.OperandText
import Mos6502.Text.Blank
import Mos6502.Text.Quoted

namespace Mos6502

/-! ### Failures -/

/-- Which part of a line cannot be read. -/
inductive LinePart where
  | labelDeclaration
  | mnemonic
  | operand
deriving DecidableEq, Repr

/-- The words for a part of a line. -/
def LinePart.text : LinePart → Bytes
  | .labelDeclaration => ascii "label declaration"
  | .mnemonic => ascii "mnemonic"
  | .operand => ascii "operand"

/-- A line that cannot be read: its number, the part at fault and the text
found there. -/
structure ParseError where
  line : Nat
  part : LinePart
  found : Bytes
deriving DecidableEq, Repr

/-- The text of a parse error. -/
def ParseError.message (e : ParseError) : Bytes :=
  atLine e.line
    (Fault.malformed.text ++ ascii ": invalid " ++ e.part.text ++ ascii " " ++ Text.quote e.found)

instance : Diagnostic ParseError where
  fault _ := .malformed
  message := ParseError.message
  symbol? _ := none

/-! ### Trimming shortens -/

namespace Text

theorem dropUnits_length_le (units : List Bytes) (s : Bytes) :
    (dropUnits units s).length ≤ s.length := by
  fun_induction dropUnits units s with
  | case1 => exact Nat.le_refl _
  | case2 s u _ ih =>
    simp only [List.length_drop] at ih
    omega

theorem trim_length_le (s : Bytes) : (trim s).length ≤ s.length := by
  have hs := dropUnits_length_le blanks s
  have he := dropUnits_length_le blanksReversed (dropUnits blanks s).reverse
  simp only [trim, trimEnd, trimStart, List.length_reverse] at he ⊢
  omega

end Text

/-! ### Labels -/

/-- Splits a label declaration off the front of a text: an identifier, blanks
and a colon. -/
def takeLabel? : Bytes → Option (Bytes × Bytes)
  | [] => none
  | b :: rest =>
    if Byte.isNameStart b then
      match skipBlanks (rest.dropWhile Byte.isNamePart) with
      | 0x3A :: after => some (b :: rest.takeWhile Byte.isNamePart, after)
      | _ => none
    else none

theorem length_dropWhile_le (p : UInt8 → Bool) (s : Bytes) :
    (s.dropWhile p).length ≤ s.length :=
  (List.dropWhile_sublist p).length_le

/-- What follows a label declaration is shorter than the whole. -/
theorem takeLabel?_length {s name after : Bytes} (h : takeLabel? s = some (name, after)) :
    after.length < s.length := by
  cases s with
  | nil => simp [takeLabel?] at h
  | cons b rest =>
    simp only [takeLabel?] at h
    split at h
    · split at h
      · next after' heq =>
        have hlen := congrArg List.length heq
        have h₁ := length_dropWhile_le Byte.isBlank (rest.dropWhile Byte.isNamePart)
        have h₂ := length_dropWhile_le Byte.isNamePart rest
        simp only [skipBlanks, List.length_cons] at hlen
        simp only [Option.some.injEq, Prod.mk.injEq] at h
        obtain ⟨-, rfl⟩ := h
        simp only [List.length_cons]
        omega
      · simp at h
    · simp at h

/-- The labels declared at the front of a trimmed text, and the trimmed
remainder. -/
def takeLabels (s : Bytes) : List Bytes × Bytes :=
  match _h : takeLabel? s with
  | none => ([], s)
  | some (name, after) =>
    let (names, rest) := takeLabels (Text.trim after)
    (name :: names, rest)
termination_by s.length
decreasing_by
  have := takeLabel?_length _h
  have := Text.trim_length_le after
  omega

/-! ### Lines -/

/-- A line without its comment and without white space at its edges. -/
def lineText (line : Bytes) : Bytes :=
  Text.trim (line.takeWhile (· != 0x3B))

/-- Splits an instruction at its first space or tab into mnemonic and trimmed
operand text. -/
def splitInstruction (s : Bytes) : Bytes × Bytes :=
  let isGap := fun b : UInt8 => b == 0x20 || b == 0x09
  (s.takeWhile fun b => !isGap b, Text.trim (s.dropWhile fun b => !isGap b))

/-- Reads one line; none if it holds nothing but blanks and a comment. -/
def parseLine (number : Nat) (line : Bytes) : Except ParseError (Option Node) :=
  let text := lineText line
  if text.isEmpty then .ok none
  else
    let (labels, rest) := takeLabels text
    if rest.contains 0x3A then .error ⟨number, .labelDeclaration, rest⟩
    else if rest.isEmpty then .ok (some (.label number labels))
    else
      let (mnemonic, operandText) := splitInstruction rest
      if !isIdentifier mnemonic then .error ⟨number, .mnemonic, mnemonic⟩
      else if operandText.isEmpty then .ok (some (.instruction number labels mnemonic none))
      else
        match Operand.parse? operandText with
        | some operand => .ok (some (.instruction number labels mnemonic (some operand)))
        | none => .error ⟨number, .operand, operandText⟩

/-- The lines of a text: what stands between its line feeds. -/
def lines (source : Bytes) : List Bytes :=
  source.splitOnP (· == 0x0A)

/-- Reads a text into nodes, the last of which marks its end. -/
def parse (source : Bytes) : Except ParseError (List Node) := do
  let all := lines source
  let nodes ← (all.zipIdx 1).mapM fun (line, number) => parseLine number line
  return nodes.filterMap id ++ [.finish all.length]

end Mos6502
