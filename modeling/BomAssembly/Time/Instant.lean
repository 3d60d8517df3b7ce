/-!
# Instants

An instant is a number of seconds since the start of 1970 in UTC, and nanoseconds. A leap second is
the second before it with a second or more of nanoseconds. Dates are those of the Gregorian calendar,
also before it was in use.
-/

namespace BomAssembly.Time

/-- An instant. -/
structure Instant where
  seconds : Int
  /-- Below two seconds; a second or more during a leap second. -/
  nanos : Nat
  deriving DecidableEq, Inhabited

/-- A day of the calendar. -/
structure Date where
  year : Int
  month : Nat
  day : Nat
  deriving DecidableEq, Inhabited

namespace Date

/-- Whether a year has a leap day. -/
def isLeapYear (y : Int) : Bool := y % 4 == 0 && (y % 100 != 0 || y % 400 == 0)

/-- How many days a month has. -/
def daysIn (y : Int) (m : Nat) : Nat :=
  if m = 2 then (if isLeapYear y then 29 else 28)
  else if m = 4 ∨ m = 6 ∨ m = 9 ∨ m = 11 then 30 else 31

/-- Whether this is a day of the calendar. -/
def isValid (d : Date) : Bool :=
  1 ≤ d.month && d.month ≤ 12 && 1 ≤ d.day && d.day ≤ daysIn d.year d.month

/--
The number of the day, with the first day of 1970 as zero. Years are counted from March on, so that a
leap day is the last day of its year; 400 years have 146097 days.
-/
def number (d : Date) : Int :=
  let y := if d.month ≤ 2 then d.year - 1 else d.year
  let era := y / 400
  let yearOfEra := y % 400
  let monthFromMarch := (d.month + 9) % 12
  let dayOfYear : Int := (153 * monthFromMarch + 2) / 5 + d.day - 1
  era * 146097 + yearOfEra * 365 + yearOfEra / 4 - yearOfEra / 100 + dayOfYear - 719468

/-- The day of a number. -/
def ofNumber (n : Int) : Date :=
  let z := n + 719468
  let era := z / 146097
  let dayOfEra := z % 146097
  let yearOfEra := (dayOfEra - dayOfEra / 1460 + dayOfEra / 36524 - dayOfEra / 146096) / 365
  let dayOfYear := dayOfEra - (365 * yearOfEra + yearOfEra / 4 - yearOfEra / 100)
  let monthFromMarch := (5 * dayOfYear + 2) / 153
  let day := dayOfYear - (153 * monthFromMarch + 2) / 5 + 1
  let month := if monthFromMarch < 10 then monthFromMarch + 3 else monthFromMarch - 9
  let year := yearOfEra + era * 400 + (if month ≤ 2 then 1 else 0)
  ⟨year, month.toNat, day.toNat⟩

end Date

namespace Instant

/-- The nanoseconds of a second. -/
def perSecond : Nat := 1000000000

/-- The instant so many milliseconds after the start of 1970. -/
def ofMillis (ms : Int) : Instant := ⟨ms / 1000, (ms % 1000).toNat * 1000000⟩

/-- The day of an instant. -/
def date (t : Instant) : Date := .ofNumber (t.seconds / 86400)

/-- The seconds of the day. -/
def secondOfDay (t : Instant) : Nat := (t.seconds % 86400).toNat

/-- Whether this is in a leap second. -/
def isLeap (t : Instant) : Bool := perSecond ≤ t.nanos

/-- The nanoseconds from one instant to another; a leap second that lies between them counts. -/
def since (t start : Instant) : Int :=
  let leap : Int :=
    if start.secondOfDay < t.secondOfDay && start.isLeap then 1
    else if t.secondOfDay < start.secondOfDay && t.isLeap then -1
    else 0
  (t.seconds - start.seconds + leap) * perSecond + ((t.nanos : Int) - start.nanos)

end Instant

end BomAssembly.Time
