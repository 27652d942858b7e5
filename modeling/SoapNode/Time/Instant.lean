/-!
# Instants

A point of time in seconds since 1970 with nanoseconds; in a leap second the nanoseconds run on beyond
one second. Dates are those of the Gregorian calendar, extended to both sides over the years that
`inRange` admits. The time between two instants counts a leap second for what is later in the day.
-/

namespace SoapNode

structure Instant where
  seconds : Int
  nanos : Nat
  deriving DecidableEq, Repr, Inhabited

structure Date where
  year : Int
  month : Nat
  day : Nat
  deriving DecidableEq, Repr

namespace Date

def isLeapYear (y : Int) : Bool := y % 4 == 0 && (y % 100 != 0 || y % 400 == 0)

def daysIn (y : Int) (month : Nat) : Nat :=
  match month with
  | 2 => if isLeapYear y then 29 else 28
  | 4 | 6 | 9 | 11 => 30
  | _ => 31

def isValid (d : Date) : Bool := 1 ≤ d.month && d.month ≤ 12 && 1 ≤ d.day && d.day ≤ daysIn d.year d.month

/-- Days since 1970. The year is counted from March, so that the leap day comes last. -/
def toDays (d : Date) : Int :=
  let y := if d.month ≤ 2 then d.year - 1 else d.year
  let era := y / 400
  let yearOfEra := y % 400
  let m := (d.month + 9) % 12
  let dayOfYear := (153 * m + 2) / 5 + d.day - 1
  let dayOfEra := yearOfEra * 365 + yearOfEra / 4 - yearOfEra / 100 + dayOfYear
  era * 146097 + dayOfEra - 719468

def ofDays (days : Int) : Date :=
  let z := days + 719468
  let era := z / 146097
  let dayOfEra := z % 146097
  let yearOfEra := (dayOfEra - dayOfEra / 1460 + dayOfEra / 36524 - dayOfEra / 146096) / 365
  let dayOfYear := (dayOfEra - (365 * yearOfEra + yearOfEra / 4 - yearOfEra / 100)).toNat
  let m := (5 * dayOfYear + 2) / 153
  let month := if m < 10 then m + 3 else m - 9
  ⟨yearOfEra + era * 400 + (if month ≤ 2 then 1 else 0), month, dayOfYear - (153 * m + 2) / 5 + 1⟩

end Date

namespace Instant

def secondsPerDay : Int := 86400

def nanosPerSecond : Nat := 1000000000

def ofCivil (d : Date) (hour minute second nanos : Nat) : Instant :=
  ⟨d.toDays * secondsPerDay + hour * 3600 + minute * 60 + second, nanos⟩

def date (t : Instant) : Date := .ofDays (t.seconds / secondsPerDay)

def inRange (t : Instant) : Bool := -262143 ≤ t.date.year && t.date.year ≤ 262142

/-- Adds seconds. Going on from a leap second counts from the second before it, going back from the
second after it. -/
def addSeconds (t : Instant) (n : Int) : Instant :=
  if t.nanos < nanosPerSecond || n == 0 then { t with seconds := t.seconds + n }
  else ⟨t.seconds + n + (if n < 0 then 1 else 0), t.nanos - nanosPerSecond⟩

def secondOfDay (t : Instant) : Int := t.seconds % secondsPerDay

/-- The leap second between two instants. None is known but one that they are in themselves, and it counts
if the other instant is later in its day. -/
def leapSince (t u : Instant) : Int :=
  if u.secondOfDay < t.secondOfDay ∧ nanosPerSecond ≤ u.nanos then 1
  else if t.secondOfDay < u.secondOfDay ∧ nanosPerSecond ≤ t.nanos then -1
  else 0

/-- The nanoseconds from the second instant to the first one. -/
def since (t u : Instant) : Int := (t.seconds - u.seconds + leapSince t u) * nanosPerSecond + (t.nanos - u.nanos)

def isBefore (t u : Instant) : Bool := t.seconds < u.seconds || (t.seconds == u.seconds && t.nanos < u.nanos)

end Instant

end SoapNode
