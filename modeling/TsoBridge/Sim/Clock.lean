/-
Dates and times of day as the simulated host shows them, in the Gregorian
calendar.

A clock is a sequence of readings, one for each time somebody looks; what
it shows may stand still or go on between two looks.
-/
import TsoBridge.Text.Numeral

namespace TsoBridge.Sim

open Text

/-- A date and a time of day. -/
structure DateTime where
  year : Int
  month : Nat
  day : Nat
  hour : Nat
  minute : Nat
  second : Nat
deriving DecidableEq

namespace DateTime

/-- Whether a year has 366 days. -/
def isLeap (year : Int) : Bool :=
  year % 4 == 0 && (year % 100 != 0 || year % 400 == 0)

/-- The number of days of the months before a month of a year. -/
def daysBefore (year : Int) (month : Nat) : Nat :=
  let lengths := [31, if isLeap year then 29 else 28, 31, 30, 31, 30, 31, 31, 30, 31, 30, 31]
  (lengths.take (month - 1)).foldr (· + ·) 0

/-- The number of a day within its year, from 1. -/
def dayOfYear (time : DateTime) : Nat :=
  daysBefore time.year time.month + time.day

/-- The number of days before a year, counted from year 1. -/
def daysBeforeYear (year : Int) : Int :=
  let past := year - 1
  past * 365 + past.fdiv 4 - past.fdiv 100 + past.fdiv 400

/-- The number of seconds since the start of year 1. -/
def seconds (time : DateTime) : Int :=
  (daysBeforeYear time.year + time.dayOfYear - 1) * 86400
    + time.hour * 3600 + time.minute * 60 + time.second

-- ============================================================== writing

/-- The names of the months. -/
def monthNames : List String :=
  ["JANUARY", "FEBRUARY", "MARCH", "APRIL", "MAY", "JUNE", "JULY", "AUGUST", "SEPTEMBER",
   "OCTOBER", "NOVEMBER", "DECEMBER"]

/-- The year in four digits, with a sign if it has no four-digit form. -/
def yearText (year : Int) : String :=
  if 0 ≤ year && year ≤ 9999 then decimalOf 4 year.toNat
  else (if year < 0 then "-" else "+") ++ decimalOf 4 year.natAbs

/-- Two digits of the year and three of the day of the year. -/
def julian (time : DateTime) : String :=
  decimalOf 2 (time.year % 100).toNat ++ decimalOf 3 time.dayOfYear

/-- Hour, minute and second in six digits. -/
def clockDigits (time : DateTime) : String :=
  decimalOf 2 time.hour ++ decimalOf 2 time.minute ++ decimalOf 2 time.second

/-- The time of day on a clock of twelve hours. -/
def twelveHour (time : DateTime) : String :=
  let hour := if time.hour % 12 = 0 then 12 else time.hour % 12
  decimalOf 2 hour ++ ":" ++ decimalOf 2 time.minute ++ ":" ++ decimalOf 2 time.second
    ++ (if time.hour < 12 then " AM." else " PM.")

/-- Month, day and year in words and digits. -/
def date (time : DateTime) : String :=
  monthNames.getD (time.month - 1) "" ++ " " ++ decimal time.day ++ "," ++ yearText time.year

end DateTime

-- =============================================================== clocks

/-- A clock: its readings and how often it was looked at. -/
structure Clock where
  reading : Nat → DateTime
  looks : Nat := 0

namespace Clock

/-- A clock that stands still. -/
def fixed (time : DateTime) : Clock :=
  { reading := fun _ => time }

/-- What the clock shows now. -/
def now (clock : Clock) : DateTime :=
  clock.reading clock.looks

/-- The clock after a look at it. -/
def tick (clock : Clock) : Clock :=
  { clock with looks := clock.looks + 1 }

end Clock
end TsoBridge.Sim
