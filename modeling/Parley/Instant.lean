/-
Points in time, to the nanosecond.

An instant is a count of seconds since 1970 and a nanosecond part.  A nanosecond
part from `10 ^ 9` up stands for a leap second that follows the counted one.

* `since` — the exact time between two instants, in nanoseconds;
* `Instant.Date` — the day of the Gregorian calendar that a count of days names.
-/

namespace Parley

structure Instant where
  seconds : Int
  nanos : Nat
  deriving DecidableEq, Inhabited

namespace Instant

def epoch : Instant := ⟨0, 0⟩

def nanosPerSecond : Nat := 1000000000

def secondsPerDay : Nat := 86400

def ofMillis (ms : Int) : Instant :=
  ⟨ms / 1000, (ms % 1000).toNat * 1000000⟩

/-- Earlier, or within the same second and not later in it. -/
def le (a b : Instant) : Bool :=
  a.seconds < b.seconds || (a.seconds == b.seconds && a.nanos ≤ b.nanos)

/-- The second of its day. -/
def timeOfDay (a : Instant) : Int := a.seconds % secondsPerDay

def isLeap (a : Instant) : Bool := nanosPerSecond ≤ a.nanos

/-- A leap second adds a second to an interval that spans it; whether it does is
told from the times of day. -/
def leapBetween (a b : Instant) : Int :=
  if b.timeOfDay < a.timeOfDay && b.isLeap then 1
  else if a.timeOfDay < b.timeOfDay && a.isLeap then -1
  else 0

/-- Nanoseconds from `b` to `a`. -/
def since (a b : Instant) : Int :=
  (a.seconds - b.seconds + leapBetween a b) * nanosPerSecond + (a.nanos - b.nanos)

/-- Whole milliseconds from `b` to `a`, truncated toward zero. -/
def millisSince (a b : Instant) : Int := (a.since b).tdiv 1000000

def addMillis (a : Instant) (ms : Int) : Instant :=
  let total := a.seconds * nanosPerSecond + a.nanos + ms * 1000000
  ⟨total / nanosPerSecond, (total % nanosPerSecond).toNat⟩

/-- The seconds that a calendar year from -262143 to 262142 can name. -/
def minSeconds : Int := -8334601228800

def maxSeconds : Int := 8210266876799

def inRange (a : Instant) : Bool := minSeconds ≤ a.seconds && a.seconds ≤ maxSeconds

/-- The instant so many milliseconds after the epoch, if the calendar reaches it. -/
def ofMillis? (ms : Int) : Option Instant :=
  let a := ofMillis ms
  if a.inRange then some a else none

end Instant

/-- A day of the Gregorian calendar. -/
structure Date where
  year : Int
  month : Nat
  day : Nat
  deriving DecidableEq, Inhabited

namespace Date

def minYear : Int := -262143

def maxYear : Int := 262142

def isLeapYear (year : Int) : Bool :=
  year % 4 == 0 && (year % 100 != 0 || year % 400 == 0)

def daysInMonth (year : Int) (month : Nat) : Nat :=
  if month == 2 then (if isLeapYear year then 29 else 28)
  else if month == 4 || month == 6 || month == 9 || month == 11 then 30
  else 31

def isValid (d : Date) : Bool :=
  minYear ≤ d.year && d.year ≤ maxYear && 1 ≤ d.month && d.month ≤ 12 &&
    1 ≤ d.day && d.day ≤ daysInMonth d.year d.month

/-- Days from the first of January 1970.  Years are counted from March, so that a
leap day ends its year. -/
def toDays (d : Date) : Int :=
  let year := if d.month ≤ 2 then d.year - 1 else d.year
  let month : Int := if d.month ≤ 2 then d.month + 9 else d.month - 3
  let era := year / 400
  let yearOfEra := year % 400
  let dayOfYear := (153 * month + 2) / 5 + d.day - 1
  era * 146097 + (yearOfEra * 365 + yearOfEra / 4 - yearOfEra / 100 + dayOfYear) - 719468

def ofDays (days : Int) : Date :=
  let shifted := days + 719468
  let era := shifted / 146097
  let dayOfEra := shifted % 146097
  let yearOfEra := (dayOfEra - dayOfEra / 1460 + dayOfEra / 36524 - dayOfEra / 146096) / 365
  let dayOfYear := dayOfEra - (365 * yearOfEra + yearOfEra / 4 - yearOfEra / 100)
  let month := (5 * dayOfYear + 2) / 153
  let day := dayOfYear - (153 * month + 2) / 5 + 1
  let civilMonth := if month < 10 then month + 3 else month - 9
  let year := yearOfEra + era * 400 + (if civilMonth ≤ 2 then 1 else 0)
  ⟨year, civilMonth.toNat, day.toNat⟩

end Date

namespace Instant

def date (a : Instant) : Date := Date.ofDays (a.seconds / secondsPerDay)

/-- The instant of a day, a time of day in seconds and a nanosecond part. -/
def ofDate (d : Date) (time : Int) (nanos : Nat) : Instant :=
  ⟨d.toDays * secondsPerDay + time, nanos⟩

end Instant

end Parley
