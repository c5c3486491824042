/-!
# Dates and times

Dates of the Gregorian calendar, extended to all years, times of day that may be leap seconds, and
the texts of both.
-/

namespace BoundSql

/-- A date. -/
structure Date where
  year : Int
  month : Nat
  day : Nat
  deriving DecidableEq, Repr

/-- A time of day. The second may be 60. -/
structure TimeOfDay where
  hour : Nat
  minute : Nat
  second : Nat
  nano : Nat
  deriving DecidableEq, Repr

/-- A date with a time of day. -/
structure DateTime where
  date : Date
  time : TimeOfDay
  deriving DecidableEq, Repr

/-- A local date and time, and how many minutes it is ahead of UTC. -/
structure ZonedDateTime where
  localTime : DateTime
  offset : Int
  deriving DecidableEq, Repr

namespace Date

/-- Whether the year has a 29th of February. -/
def isLeapYear (year : Int) : Bool :=
  year % 4 = 0 && (year % 100 != 0 || year % 400 = 0)

/-- The number of days of a month. -/
def daysOfMonth (year : Int) (month : Nat) : Nat :=
  if month = 2 then (if isLeapYear year then 29 else 28)
  else if month = 4 || month = 6 || month = 9 || month = 11 then 30
  else 31

/-- The first and the last year that a date may have. -/
def yearRange : Int × Int := (-262143, 262142)

/-- Whether the day exists and the year is in range. -/
def isValid (d : Date) : Bool :=
  yearRange.1 ≤ d.year && d.year ≤ yearRange.2 && 1 ≤ d.month && d.month ≤ 12 &&
    1 ≤ d.day && d.day ≤ daysOfMonth d.year d.month

/-- The next day. -/
def next (d : Date) : Date :=
  if d.day < daysOfMonth d.year d.month then { d with day := d.day + 1 }
  else if d.month < 12 then { d with month := d.month + 1, day := 1 }
  else { year := d.year + 1, month := 1, day := 1 }

/-- The day before. -/
def previous (d : Date) : Date :=
  if 1 < d.day then { d with day := d.day - 1 }
  else if 1 < d.month then
    { d with month := d.month - 1, day := daysOfMonth d.year (d.month - 1) }
  else { year := d.year - 1, month := 12, day := 31 }

end Date

/-- A number with zeros in front up to a width. -/
def zeroPadded (width n : Nat) : String :=
  let digits := Nat.toDigits 10 n
  String.ofList (List.replicate (width - digits.length) '0' ++ digits)

namespace Date

/-- A year: four digits, with a sign if it is negative or longer. -/
def yearText (year : Int) : String :=
  if 0 ≤ year && year < 10000 then zeroPadded 4 year.toNat
  else (if year < 0 then "-" else "+") ++ zeroPadded 4 year.natAbs

/-- The text `year-month-day`. -/
def toText (d : Date) : String :=
  s!"{yearText d.year}-{zeroPadded 2 d.month}-{zeroPadded 2 d.day}"

end Date

namespace TimeOfDay

/-- The fraction of a second, with its point: no digits, or three, six or nine. -/
def fractionText (nano : Nat) : String :=
  if nano = 0 then ""
  else if nano % 1000000 = 0 then "." ++ zeroPadded 3 (nano / 1000000)
  else if nano % 1000 = 0 then "." ++ zeroPadded 6 (nano / 1000)
  else "." ++ zeroPadded 9 nano

/-- The text `hour:minute:second` with the fraction. -/
def toText (t : TimeOfDay) : String :=
  s!"{zeroPadded 2 t.hour}:{zeroPadded 2 t.minute}:{zeroPadded 2 t.second}" ++ fractionText t.nano

end TimeOfDay

namespace DateTime

/-- Date and time with a blank between them. -/
def toText (t : DateTime) : String := t.date.toText ++ " " ++ t.time.toText

/-- The date and time some minutes earlier, less than a day. -/
def minusMinutes (t : DateTime) (minutes : Int) : DateTime :=
  let total : Int := t.time.hour * 60 + t.time.minute - minutes
  let date :=
    if total < 0 then t.date.previous else if 1440 ≤ total then t.date.next else t.date
  let inDay := (total % 1440).toNat
  { date, time := { t.time with hour := inDay / 60, minute := inDay % 60 } }

end DateTime

namespace ZonedDateTime

/-- The same instant in UTC. -/
def toUtc (t : ZonedDateTime) : DateTime := t.localTime.minusMinutes t.offset

/-- An offset from UTC, as hours and minutes with a sign. -/
def offsetText (offset : Int) : String :=
  (if offset < 0 then "-" else "+") ++
    zeroPadded 2 (offset.natAbs / 60) ++ ":" ++ zeroPadded 2 (offset.natAbs % 60)

/-- The local date and time and its offset. -/
def toText (t : ZonedDateTime) : String := t.localTime.toText ++ offsetText t.offset

end ZonedDateTime

end BoundSql
