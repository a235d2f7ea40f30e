import SchemaEditor.Time.Timestamp

/-!
# Moments by the clock

A clock counts the seconds since the beginning of 1970. The date is found in a calendar whose years
begin in March, so that the leap day is the last day of a year; 400 such years have 146097 days.
-/

namespace SchemaEditor.Timestamp

/-- The days from the beginning of March in year 0 to the beginning of 1970. -/
def epochDay : Int := 719468

/-- The year, month and day that lie `days` days after the beginning of 1970. -/
def dateOfDays (days : Int) : Int × Nat × Nat :=
  let cycle := (days + epochDay) / 146097
  let inCycle := (days + epochDay) % 146097
  let year := (inCycle - inCycle / 1460 + inCycle / 36524 - inCycle / 146096) / 365
  let inYear := inCycle - (365 * year + year / 4 - year / 100)
  let fromMarch := (5 * inYear + 2) / 153
  let day := inYear - (153 * fromMarch + 2) / 5 + 1
  let month := if fromMarch < 10 then fromMarch + 3 else fromMarch - 9
  (year + cycle * 400 + (if month ≤ 2 then 1 else 0), month.toNat, day.toNat)

/-- The moment at a count of seconds and nanoseconds. -/
def ofClock (seconds : Int) (nano : Nat) : Timestamp :=
  let (year, month, day) := dateOfDays (seconds / 86400)
  let second := (seconds % 86400).toNat
  { year, month, day, hour := second / 3600, minute := second / 60 % 60, second := second % 60
    nano }

end SchemaEditor.Timestamp
