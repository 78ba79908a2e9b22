import WideRow.Error.Basic
import WideRow.Time.Calendar

/-!
# Dates, times of day and timestamps

A date counts days and a timestamp milliseconds from 1970-01-01; a time of day counts milliseconds
from midnight. A date lies within the calendar's range. A timestamp may lie outside it and is then
shown by its number.
-/

namespace WideRow

/-! ## Dates -/

/-- A calendar date, as the number of days from 1970-01-01. -/
structure Date where
  epochDays : Int
  first_le : Calendar.firstDay ≤ epochDays
  le_last : epochDays ≤ Calendar.lastDay
  deriving DecidableEq

namespace Date

/-- The wire number of 1970-01-01. -/
def wireOffset : Int := 2147483648

def ofEpochDays (days : Int) : Result Date :=
  if h : Calendar.firstDay ≤ days ∧ days ≤ Calendar.lastDay then .ok ⟨days, h.1, h.2⟩
  else .error (.decode "date" (.dateOutOfRange days))

/-- The date with a wire number: days from 1970-01-01, offset so that none is negative. -/
def ofWire (raw : UInt32) : Result Date :=
  ofEpochDays (raw.toNat - wireOffset)

def toWire (d : Date) : UInt32 :=
  UInt32.ofNat (d.epochDays + wireOffset).toNat

def day (d : Date) : Calendar.Day :=
  .ofEpochDays d.epochDays

def text (d : Date) : String :=
  String.ofList d.day.numeral

end Date

/-! ## Times of day -/

def nanosPerMilli : Int := 1000000

def nanosPerDay : Int := 86400000000000

/-- A time of day in milliseconds from midnight. -/
structure TimeOfDay where
  millis : Nat
  lt_day : millis < 86400000
  deriving DecidableEq

namespace TimeOfDay

/-- The time that many nanoseconds from midnight, less what exceeds a whole millisecond. -/
def ofNanos (nanos : Int64) : Result TimeOfDay :=
  if h : 0 ≤ nanos.toInt ∧ nanos.toInt < nanosPerDay then
    .ok ⟨nanos.toInt.toNat / 1000000, by unfold nanosPerDay at h; omega⟩
  else .error (.decode "time" (.timeOutOfRange nanos.toInt))

def nanos (t : TimeOfDay) : Int64 :=
  Int64.ofInt (t.millis * nanosPerMilli)

def text (t : TimeOfDay) : String :=
  String.ofList (Calendar.clockNumeral t.millis)

end TimeOfDay

/-! ## Timestamps -/

/-- A moment, in milliseconds from the start of 1970-01-01. -/
structure Timestamp where
  millis : Int64
  deriving DecidableEq

namespace Timestamp

/-- The day of the moment, counted from 1970-01-01. -/
def epochDays (t : Timestamp) : Int :=
  t.millis.toInt / 86400000

/-- The milliseconds since the day began. -/
def millisOfDay (t : Timestamp) : Nat :=
  (t.millis.toInt % 86400000).toNat

/-- The date and the time of day, if the calendar reaches that far. -/
def dayAndTime? (t : Timestamp) : Option (Calendar.Day × Nat) :=
  if Calendar.firstDay ≤ t.epochDays ∧ t.epochDays ≤ Calendar.lastDay then
    some (.ofEpochDays t.epochDays, t.millisOfDay)
  else none

def text (t : Timestamp) : String :=
  match t.dayAndTime? with
  | some (day, millis) => String.ofList (day.numeral ++ ' ' :: Calendar.clockNumeral millis)
  | none => toString t.millis.toInt

end Timestamp

end WideRow
