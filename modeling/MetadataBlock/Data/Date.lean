import MetadataBlock.Number.Decimal

/-!
# Dates

A moment is a count of milliseconds since the start of 1970 (UTC) in the
proleptic Gregorian calendar. Moments further than `8.64e15` milliseconds from
there do not exist.
-/

namespace MetadataBlock

/-- A calendar date with the time of day, in UTC. -/
structure Moment where
  year : Int
  /-- Month of the year, from 1. -/
  month : Nat
  /-- Day of the month, from 1. -/
  day : Nat
  /-- Day of the week, Sunday being 0. -/
  weekday : Nat
  /-- Milliseconds since midnight. -/
  clock : Nat
  deriving DecidableEq

namespace Moment

def dayLength : Int := 86400000

/-- Days from the start of 1970 to a date; months outside 1 to 12 and days outside
the month carry over. -/
def daysOf (year : Int) (month : Int) (day : Int) : Int :=
  let year := year + (month - 1) / 12
  let month := (month - 1) % 12 + 1
  let y := if month ≤ 2 then year - 1 else year
  let era := y / 400
  let yearOfEra := y % 400
  let shifted := (month + 9) % 12
  let dayOfYear := (153 * shifted + 2) / 5
  era * 146097 + yearOfEra * 365 + yearOfEra / 4 - yearOfEra / 100 + dayOfYear - 719468 + (day - 1)

/-- The moment of a millisecond count. -/
def ofMillis (ms : Int) : Moment :=
  let days := ms / dayLength
  let z := days + 719468
  let era := z / 146097
  let dayOfEra := z % 146097
  let yearOfEra := (dayOfEra - dayOfEra / 1460 + dayOfEra / 36524 - dayOfEra / 146096) / 365
  let dayOfYear := dayOfEra - (365 * yearOfEra + yearOfEra / 4 - yearOfEra / 100)
  let shifted := (5 * dayOfYear + 2) / 153
  let day := dayOfYear - (153 * shifted + 2) / 5 + 1
  let month := if shifted < 10 then shifted + 3 else shifted - 9
  { year := era * 400 + yearOfEra + (if month ≤ 2 then 1 else 0)
    month := month.toNat
    day := day.toNat
    weekday := ((days + 4) % 7).toNat
    clock := (ms % dayLength).toNat }

/-- The year as four digits, or six digits with a sign outside 0 to 9999. -/
def yearText (year : Int) : Text :=
  if 0 ≤ year && year ≤ 9999 then Text.ofNatPadded 4 year.toNat
  else (if year < 0 then "-" else "+") ++ Text.ofNatPadded 6 year.natAbs

/-- Year, month, day and time of day, largest unit first. -/
def isoText (m : Moment) : Text :=
  yearText m.year ++ "-" ++ Text.ofNatPadded 2 m.month ++ "-" ++ Text.ofNatPadded 2 m.day
    ++ "T" ++ Text.ofNatPadded 2 (m.clock / 3600000) ++ ":" ++ Text.ofNatPadded 2 (m.clock / 60000 % 60)
    ++ ":" ++ Text.ofNatPadded 2 (m.clock / 1000 % 60) ++ "." ++ Text.ofNatPadded 3 (m.clock % 1000) ++ "Z"

def weekdayNames : List Text := ["Sun", "Mon", "Tue", "Wed", "Thu", "Fri", "Sat"]

def monthNames : List Text :=
  ["Jan", "Feb", "Mar", "Apr", "May", "Jun", "Jul", "Aug", "Sep", "Oct", "Nov", "Dec"]

/-- The long form with names of weekday, month and time zone. -/
def longText (m : Moment) : Text :=
  let year := (if m.year < 0 then "-" else "") ++ Text.ofNatPadded 4 m.year.natAbs
  weekdayNames.getD m.weekday [] ++ " " ++ monthNames.getD (m.month - 1) [] ++ " "
    ++ Text.ofNatPadded 2 m.day ++ " " ++ year ++ " "
    ++ Text.ofNatPadded 2 (m.clock / 3600000) ++ ":" ++ Text.ofNatPadded 2 (m.clock / 60000 % 60)
    ++ ":" ++ Text.ofNatPadded 2 (m.clock / 1000 % 60) ++ " GMT+0000 (Coordinated Universal Time)"

/-- The moment of a number of milliseconds, cut to a whole one, if it exists. -/
def ofNumber? (ms : Number) : Option Moment := do
  let n ← ms.truncate?
  if n.natAbs ≤ 8640000000000000 then some (ofMillis n) else none

end Moment

end MetadataBlock
