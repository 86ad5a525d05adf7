import ConfigLog.Calendar.Date

set_option autoImplicit false

/-! # Moments

A point in time and its parts on the calendar and the clock, in universal time.
-/

namespace ConfigLog.Calendar

/-- A point in time: seconds since the start of 1970 and the nanoseconds behind them. -/
structure Moment where
  seconds : Int
  nanos : Nat
  deriving DecidableEq, Repr, Inhabited

namespace Moment

/-- The moment some seconds and nanoseconds after the start of 1970; whole seconds among the
nanoseconds are carried over. -/
def of (seconds : Int) (nanos : Nat) : Moment :=
  ⟨seconds + (nanos / 1000000000 : Nat), nanos % 1000000000⟩

/-- The number of the day, counted from 1 January 1970. -/
def dayNumber (m : Moment) : Int := m.seconds / 86400

/-- The second of the day. -/
def secondOfDay (m : Moment) : Nat := (m.seconds % 86400).toNat

/-- The day. -/
def date (m : Moment) : Date := .ofDays m.dayNumber

/-- The hour of the day, up to 23. -/
def hour (m : Moment) : Nat := m.secondOfDay / 3600

/-- The hour of the half day, from 1 to 12. -/
def hour12 (m : Moment) : Nat := if m.hour % 12 == 0 then 12 else m.hour % 12

/-- The minute of the hour. -/
def minute (m : Moment) : Nat := m.secondOfDay / 60 % 60

/-- The second of the minute. -/
def second (m : Moment) : Nat := m.secondOfDay % 60

/-- The day of the week, counted from 0 on Sunday. -/
def weekday (m : Moment) : Nat := Calendar.weekday m.dayNumber

/-- The day of the week, counted from 1 on Monday. -/
def weekdayFromMonday (m : Moment) : Nat := (m.weekday + 6) % 7 + 1

/-- The number of the week when weeks start on Sunday. Before the first Sunday it is 0. -/
def weekFromSunday (m : Moment) : Nat := (m.date.ordinal + 6 - m.weekday) / 7

/-- The number of the week when weeks start on Monday; days before the first Monday are in
week 0. -/
def weekFromMonday (m : Moment) : Nat := (m.date.ordinal + 7 - m.weekdayFromMonday) / 7

/-! ## Weeks that belong to one year as a whole -/

/-- The number of such weeks in a year that ends on the given day of the week, from 1 on Monday. -/
def weeksOfYear (year : Int) (lastWeekday : Nat) : Nat :=
  if lastWeekday == 4 || (lastWeekday == 5 && isLeap year) then 53 else 52

/-- The year and the number of the week, where a week belongs to the year that holds its
Thursday. -/
def isoWeek (m : Moment) : Int × Nat :=
  let d := m.date
  let week := (d.ordinal + 10 - m.weekdayFromMonday) / 7
  let daysOfYear := if isLeap d.year then 366 else 365
  let lastWeekday := (m.weekdayFromMonday + (daysOfYear - d.ordinal) + 6) % 7 + 1
  let lastOfPrevious := (m.weekdayFromMonday + 7 * 53 - d.ordinal + 6) % 7 + 1
  if week == 0 then (d.year - 1, weeksOfYear (d.year - 1) lastOfPrevious)
  else if week > weeksOfYear d.year lastWeekday then (d.year + 1, 1)
  else (d.year, week)

end Moment

end ConfigLog.Calendar
