import BoundSql.Calendar.Basic
import BoundSql.Number.Reading
import BoundSql.Number.Width
import BoundSql.Text.Basic

/-!
# Reading dates and times

Two notations are read: fields of variable width with marks between them, and timestamps with a UTC
offset, whose fields have fixed widths. A field out of its range is refused as soon as it is read, a
day that the month does not have only at the end.
-/

namespace BoundSql.Calendar

/-- Why a text is no date or time. -/
inductive ReadError
  | tooShort
  | trailing
  | outOfRange
  | invalid
  deriving DecidableEq, Repr

namespace ReadError

/-- The text shown to users. -/
def message : ReadError → String
  | tooShort => "premature end of input"
  | trailing => "trailing input"
  | outOfRange => "input is out of range"
  | invalid => "input contains invalid characters"

end ReadError

/-- A reader of fields: it looks at the text left and takes some of it. -/
abbrev Reading (α : Type) := StateT (List Char) (Except ReadError) α

/-- Takes `least` to `most` digits; without `most`, as many as there are. -/
def number (least : Nat) (most : Option Nat) : Reading Nat := do
  let cs ← get
  let digits := match most with
    | some n => (cs.take n).takeWhile Char.isDigit
    | none => cs.takeWhile Char.isDigit
  if cs.length < least then throw .tooShort
  if digits.length < least then throw .invalid
  set (cs.drop digits.length)
  return digitsValue digits

/-- Takes this character. -/
def mark (c : Char) : Reading Unit := do
  match ← get with
  | [] => throw .tooShort
  | d :: cs => if d = c then set cs else throw .invalid

/-- Takes blanks. -/
def blanks : Reading Unit := modify Text.trimStart

/-- A number that must lie between two bounds. -/
def bounded (least most : Nat) (n : Nat) : Reading Nat :=
  if least ≤ n && n ≤ most then return n else throw .outOfRange

/-- A field of one or two digits with blanks in front of it. -/
def field (least most : Nat) : Reading Nat := do
  blanks
  bounded least most (← number 1 (some 2))

/-- A year, with a sign and any number of digits or with up to four digits. -/
def year : Reading Int := do
  blanks
  let signed (negative : Bool) (cs : List Char) : Reading Int := do
    set cs
    let n : Int := ← number 1 none
    let y := if negative then -n else n
    if fitsSigned 32 y then return y else throw .outOfRange
  match ← get with
  | '-' :: cs => signed true cs
  | '+' :: cs => signed false cs
  | _ => return (← number 1 (some 4) : Nat)

/-- A fraction of a second behind its point, in nanoseconds. Digits beyond the ninth do not
count. -/
def nanoseconds : Reading Nat := do
  let before ← get
  let n ← number 1 (some 9)
  let after ← get
  set (after.dropWhile Char.isDigit)
  return n * Nat.pow 10 (9 - (before.length - after.length))

/-- A fraction of a second, if a point stands here. -/
def fraction : Reading Nat := do
  match ← get with
  | '.' :: cs => set cs; nanoseconds
  | _ => return 0

/-- Year, month and day with hyphens between them. -/
def dateFields : Reading Date := do
  let year ← year
  mark '-'
  let month ← field 1 12
  mark '-'
  return { year, month, day := ← field 1 31 }

/-- Hour, minute and second with colons between them, and a fraction. -/
def timeFields : Reading TimeOfDay := do
  let hour ← field 0 23
  mark ':'
  let minute ← field 0 59
  mark ':'
  let second ← field 0 60
  return { hour, minute, second, nano := ← fraction }

/-- A date that exists. -/
def checked (d : Date) : Reading Date :=
  if d.isValid then return d else throw .outOfRange

/-- The end of the text. -/
def finish : Reading Unit := do
  unless (← get).isEmpty do throw .trailing

/-- What the reader makes of a whole text. -/
def readAll {α : Type} (r : Reading α) (text : List Char) : Except ReadError α :=
  (r.run text).map (·.1)

/-- A field of fixed width. -/
def fixed (width least most : Nat) : Reading Nat := do
  bounded least most (← number width (some width))

/-- What may stand between the date and the time of a timestamp with an offset. -/
def separator : Reading Unit := do
  match ← get with
  | c :: cs => if c = 't' || c = 'T' || c = ' ' then set cs else throw .invalid
  | [] => throw .tooShort

/-- An offset from UTC in minutes: `Z`, or a sign, hours and minutes. The sign may be a minus sign
as well as a hyphen. -/
def utcOffset : Reading Int := do
  let signed (negative : Bool) (cs : List Char) : Reading Int := do
    set cs
    let hours ← fixed 2 0 23
    mark ':'
    let minutes ← fixed 2 0 59
    let total : Int := (hours * 60 + minutes : Nat)
    return if negative then -total else total
  match ← get with
  | 'Z' :: cs | 'z' :: cs => set cs; return 0
  | '+' :: cs => signed false cs
  | '-' :: cs | '\u2212' :: cs => signed true cs
  | _ => throw .invalid

/-- A date, a time and an offset in fields of fixed width. -/
def zoned : Reading ZonedDateTime := do
  let year ← number 4 (some 4)
  mark '-'
  let month ← fixed 2 1 12
  mark '-'
  let day ← fixed 2 1 31
  separator
  let hour ← fixed 2 0 23
  mark ':'
  let minute ← fixed 2 0 59
  mark ':'
  let second ← fixed 2 0 60
  let nano ← fraction
  let offset ← utcOffset
  finish
  let date ← checked { year, month, day }
  return { localTime := { date, time := { hour, minute, second, nano } }, offset }

end BoundSql.Calendar

namespace BoundSql

/-- Reads a date. -/
def Date.read (text : List Char) : Except Calendar.ReadError Date :=
  Calendar.readAll (do
    let d ← Calendar.dateFields
    Calendar.finish
    Calendar.checked d) text

/-- Reads a time of day. -/
def TimeOfDay.read (text : List Char) : Except Calendar.ReadError TimeOfDay :=
  Calendar.readAll (do
    let t ← Calendar.timeFields
    Calendar.finish
    return t) text

/-- Reads a date and a time with blanks between them. -/
def DateTime.read (text : List Char) : Except Calendar.ReadError DateTime :=
  Calendar.readAll (do
    let d ← Calendar.dateFields
    Calendar.blanks
    let time ← Calendar.timeFields
    Calendar.finish
    return { date := ← Calendar.checked d, time }) text

/-- Reads a date and time with an offset from UTC. -/
def ZonedDateTime.read (text : List Char) : Except Calendar.ReadError ZonedDateTime :=
  Calendar.readAll Calendar.zoned text

end BoundSql
