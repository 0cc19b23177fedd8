/-!
# Instants and the calendar

An instant is counted in seconds from the start of the year 1970 in universal time. A leap second
belongs to the second before it, with a thousand million nanoseconds more. Dates are those of the
Gregorian calendar, which is carried on backwards.
-/

namespace ImageBatch

/-- A moment of universal time. -/
structure Instant where
  seconds : Int
  nanos : Nat
deriving Repr, DecidableEq

structure Date where
  year : Int
  month : Nat
  day : Nat
deriving Repr, DecidableEq

namespace Date

/-- The day that lies so many days after the first of January 1970. Years are counted from March,
so that a leap day comes last in its year. -/
def ofDays (days : Int) : Date :=
  let z := days + 719468
  let era := z / 146097
  let dayOfEra := (z % 146097).toNat
  let yearOfEra :=
    (dayOfEra - dayOfEra / 1460 + dayOfEra / 36524 - dayOfEra / 146096) / 365
  let dayOfYear := dayOfEra - (365 * yearOfEra + yearOfEra / 4 - yearOfEra / 100)
  let m := (5 * dayOfYear + 2) / 153
  let month := if m < 10 then m + 3 else m - 9
  ⟨yearOfEra + era * 400 + (if month ≤ 2 then 1 else 0), month, dayOfYear - (153 * m + 2) / 5 + 1⟩

/-- How many days after the first of January 1970 a date lies. -/
def toDays (d : Date) : Int :=
  let y := if d.month ≤ 2 then d.year - 1 else d.year
  let era := y / 400
  let yearOfEra := y % 400
  let m : Nat := if 2 < d.month then d.month - 3 else d.month + 9
  let dayOfYear : Int := ((153 * m + 2) / 5 : Nat) + d.day - 1
  era * 146097 + (yearOfEra * 365 + yearOfEra / 4 - yearOfEra / 100 + dayOfYear) - 719468

def isLeapYear (year : Int) : Bool :=
  year % 4 == 0 && (year % 100 != 0 || year % 400 == 0)

def monthLength (year : Int) (month : Nat) : Nat :=
  if month = 2 then if isLeapYear year then 29 else 28
  else if month = 4 ∨ month = 6 ∨ month = 9 ∨ month = 11 then 30
  else 31

/-- The years that a clock can show. -/
def hasYear (year : Int) : Bool := -262143 ≤ year && year ≤ 262142

/-- The date of a year, month and day that exist. -/
def of? (year : Int) (month day : Nat) : Option Date :=
  if hasYear year ∧ 1 ≤ month ∧ month ≤ 12 ∧ 1 ≤ day ∧ day ≤ monthLength year month then
    some ⟨year, month, day⟩
  else none

end Date

/-- A number with zeros in front to a fixed width. -/
def padded (width n : Nat) : String :=
  let ds := Nat.toDigits 10 n
  String.ofList (List.replicate (width - ds.length) '0' ++ ds)

/-- A year in four digits; one outside 0 to 9999 has a sign. -/
def yearText (year : Int) : String :=
  if 0 ≤ year ∧ year ≤ 9999 then padded 4 year.toNat
  else (if year < 0 then "-" else "+") ++ padded 4 year.natAbs

namespace Instant

/-- The instant of a clock reading that a clock can show. Only the last second of a minute can be a
leap second. -/
def of? (seconds : Int) (nanos : Nat) : Option Instant :=
  let date := Date.ofDays (seconds / 86400)
  if Date.hasYear date.year ∧ nanos < 2000000000 ∧ (nanos < 1000000000 ∨ seconds % 60 = 59) then
    some ⟨seconds, nanos⟩
  else none

def date (t : Instant) : Date := Date.ofDays (t.seconds / 86400)

def secondOfDay (t : Instant) : Nat := (t.seconds % 86400).toNat

def hour (t : Instant) : Nat := t.secondOfDay / 3600

def minute (t : Instant) : Nat := t.secondOfDay / 60 % 60

/-- The second of the minute; a leap second is number 60. -/
def second (t : Instant) : Nat := t.secondOfDay % 60 + t.nanos / 1000000000

/-- The nanoseconds of the second, counted anew in a leap second. -/
def subsecond (t : Instant) : Nat := t.nanos % 1000000000

/-- The whole milliseconds of the second. -/
def millis (t : Instant) : Nat := t.subsecond / 1000000

/-- The nanoseconds from one instant to a later one; none if it is not later. -/
def nanosSince (later earlier : Instant) : Nat :=
  ((later.seconds - earlier.seconds) * 1000000000 + (later.nanos - earlier.nanos : Int)).toNat

end Instant

end ImageBatch
