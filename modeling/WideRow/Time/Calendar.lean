import WideRow.Text.Numeral

/-!
# The Gregorian calendar

Days are counted from 1970-01-01 and dated by the Gregorian calendar, which is extended to all
years before its start; the year before year 1 is year 0. Years are taken to begin in March, so
that a leap day is the last day of its year, and are counted in cycles of 400 years, which have
146097 days each.
-/

namespace WideRow.Calendar

/-- A year, a month from 1 to 12 and a day of the month from 1. -/
structure Day where
  year : Int
  month : Nat
  day : Nat
  deriving DecidableEq, Repr

def isLeapYear (year : Int) : Bool :=
  year % 4 == 0 && (year % 100 != 0 || year % 400 == 0)

def daysInMonth (year : Int) (month : Nat) : Nat :=
  if month == 2 then if isLeapYear year then 29 else 28
  else if month == 4 || month == 6 || month == 9 || month == 11 then 30
  else 31

/-- Whether the month and the day exist. -/
def Day.exists (d : Day) : Bool :=
  1 ≤ d.month && d.month ≤ 12 && 1 ≤ d.day && d.day ≤ daysInMonth d.year d.month

/-- The number of days from 1970-01-01. -/
def Day.toEpochDays (d : Day) : Int :=
  let year := if d.month ≤ 2 then d.year - 1 else d.year
  let cycle := year / 400
  let yearOfCycle := year % 400
  let monthFromMarch : Int := (d.month + 9) % 12
  let dayOfYear := (153 * monthFromMarch + 2) / 5 + d.day - 1
  let dayOfCycle := yearOfCycle * 365 + yearOfCycle / 4 - yearOfCycle / 100 + dayOfYear
  cycle * 146097 + dayOfCycle - 719468

/-- The date that many days from 1970-01-01. -/
def Day.ofEpochDays (days : Int) : Day :=
  let fromMarch := days + 719468
  let cycle := fromMarch / 146097
  let dayOfCycle := fromMarch % 146097
  let yearOfCycle :=
    (dayOfCycle - dayOfCycle / 1460 + dayOfCycle / 36524 - dayOfCycle / 146096) / 365
  let dayOfYear := dayOfCycle - (365 * yearOfCycle + yearOfCycle / 4 - yearOfCycle / 100)
  let monthFromMarch := (5 * dayOfYear + 2) / 153
  let day := dayOfYear - (153 * monthFromMarch + 2) / 5 + 1
  let month := if monthFromMarch < 10 then monthFromMarch + 3 else monthFromMarch - 9
  let year := yearOfCycle + cycle * 400 + if month ≤ 2 then 1 else 0
  ⟨year, month.toNat, day.toNat⟩

/-- The first day that can be dated, -262143-01-01. -/
def firstDay : Int := -96465292

/-- The last day that can be dated, 262142-12-31. -/
def lastDay : Int := 95026236

/-- A year in four digits or more. Years outside 0 to 9999 have a sign. -/
def yearNumeral (year : Int) : List Char :=
  let ds := Text.paddedDigits 4 year.natAbs
  if year < 0 then '-' :: ds else if 9999 < year then '+' :: ds else ds

/-- Year, month and day with hyphens between them. -/
def Day.numeral (d : Day) : List Char :=
  yearNumeral d.year ++ '-' :: Text.paddedDigits 2 d.month ++ '-' :: Text.paddedDigits 2 d.day

/-- Hours, minutes, seconds and milliseconds of a time of day in milliseconds. -/
def clockParts (millis : Nat) : List Nat :=
  [millis / 3600000, millis / 60000 % 60, millis / 1000 % 60, millis % 1000]

/-- A time of day in milliseconds, as hours, minutes and seconds with three decimals. -/
def clockNumeral (millis : Nat) : List Char :=
  Text.paddedDigits 2 (millis / 3600000) ++ ':' ::
    Text.paddedDigits 2 (millis / 60000 % 60) ++ ':' ::
    Text.paddedDigits 2 (millis / 1000 % 60) ++ '.' ::
    Text.paddedDigits 3 (millis % 1000)

end WideRow.Calendar
