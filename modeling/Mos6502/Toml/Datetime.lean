/-
Mos6502/Toml/Datetime.lean

Which dates and times exist.  A source text that has the form of a date or
time may still name none, such as the 13th month.
-/
import Mos6502.Text.Numeral
import Mos6502.Text.Quoted

namespace Mos6502.Toml

/-! ### Dates and times -/

/-- The value of the decimal digits in `s` from index `start` on, `count` of
them. -/
def digitsAt (s : Bytes) (start count : Nat) : Nat :=
  Numeral.positional 10 (((s.drop start).take count).filterMap Numeral.decimalValue?)

/-- Whether a year has a 29th of February. -/
def isLeap (year : Nat) : Bool :=
  year % 4 == 0 && (year % 100 != 0 || year % 400 == 0)

/-- The number of days of a month. -/
def daysIn (year month : Nat) : Nat :=
  if month == 2 then (if isLeap year then 29 else 28)
  else if [4, 6, 9, 11].contains month then 30 else 31

/-- The part of a time `hh:mm:ss` that no time has. -/
def timeFault? (s : Bytes) : Option String :=
  if 23 < digitsAt s 0 2 then some "hour"
  else if 59 < digitsAt s 3 2 then some "minute"
  else if 59 < digitsAt s 6 2 then some "second"
  else none

/-- What is at fault with a date or time. -/
inductive DatetimeFault where
  /-- A part that no date or time has. -/
  | outOfRange (part : String)
  /-- A date and time that does not exist with its offset; without the offset
  the text goes on too far. -/
  | extraText (offset : Bytes)
deriving DecidableEq, Repr

/-- The text of a fault. -/
def DatetimeFault.text : DatetimeFault → Bytes
  | .outOfRange part => ascii (part ++ " out of range")
  | .extraText offset => ascii "extra text: " ++ Text.quote offset

/-- Whether an offset is `Z` or lies within a day: `+hh:mm` up to 24 hours and
60 minutes. -/
def isOffset (s : Bytes) : Bool :=
  s == [0x5A] || (digitsAt s 1 2 ≤ 24 && digitsAt s 4 2 ≤ 60)

/-- The offset at the end of a time: from the sign or the `Z` on. -/
def offsetPart (s : Bytes) : Bytes :=
  s.dropWhile fun b => Byte.isDigit b || b == 0x3A || b == 0x2E

/-- The fault of a date and, from the index 11 on, of a time with or without
an offset.  Month and time come first, then the offset, then the day. -/
def dateFault? (source : Bytes) : Option DatetimeFault :=
  let year := digitsAt source 0 4
  let month := digitsAt source 5 2
  let day := digitsAt source 8 2
  let time := source.drop 11
  let offset := offsetPart time
  let hasDay := 0 < day && day ≤ daysIn year month
  if month == 0 || 12 < month then some (.outOfRange "month")
  else
    match if time.isEmpty then none else timeFault? time with
    | some part => some (.outOfRange part)
    | none =>
      if !offset.isEmpty && !(hasDay && isOffset offset) then some (.extraText offset)
      else if hasDay then none else some (.outOfRange "day")

/-- The fault of a date, of a time or of both. -/
def datetimeFault? (source : Bytes) : Option DatetimeFault :=
  if source.contains 0x3A && !source.contains 0x2D then (timeFault? source).map .outOfRange
  else dateFault? source

/-- The text for a date or time that does not exist. -/
def datetimeMessage? (source : Bytes) : Option Bytes :=
  (datetimeFault? source).map fun fault =>
    ascii "parsing time " ++ Text.quote source ++ ascii ": " ++ fault.text

end Mos6502.Toml
