/-!
The Gregorian calendar, carried on in both directions without end. Days are counted from the first
of January 1970; a year is taken to begin in March, so that a leap day is its last.
-/
namespace NotificationQueue.Calendar

structure Date where
  year : Int
  month : Nat
  day : Nat
  deriving DecidableEq

def isLeapYear (year : Int) : Bool :=
  year % 4 = 0 && (year % 100 ≠ 0 || year % 400 = 0)

def daysInMonth (year : Int) (month : Nat) : Nat :=
  if month = 2 then (if isLeapYear year then 29 else 28)
  else if month = 4 ∨ month = 6 ∨ month = 9 ∨ month = 11 then 30
  else 31

def Date.isValid (d : Date) : Bool :=
  1 ≤ d.month && d.month ≤ 12 && 1 ≤ d.day && d.day ≤ daysInMonth d.year d.month

/-- The days before a day, counted from the first of March of year zero. -/
def Date.marchDays (d : Date) : Int :=
  let year := if d.month ≤ 2 then d.year - 1 else d.year
  let month : Nat := (d.month + 9) % 12
  365 * year + year.fdiv 4 - year.fdiv 100 + year.fdiv 400 + (153 * month + 2) / 5 + d.day - 1

/-- The days from the first of March of year zero to the first of January 1970. -/
def epochDays : Int := 719468

def Date.toDays (d : Date) : Int :=
  d.marchDays - epochDays

def Date.ofDays (days : Int) : Date :=
  let z := days + epochDays
  let era := z.fdiv 146097
  let inEra := (z - era * 146097).toNat
  let yearOfEra := (inEra - inEra / 1460 + inEra / 36524 - inEra / 146096) / 365
  let inYear := inEra - (365 * yearOfEra + yearOfEra / 4 - yearOfEra / 100)
  let marchMonth := (5 * inYear + 2) / 153
  let day := inYear - (153 * marchMonth + 2) / 5 + 1
  let month := if marchMonth < 10 then marchMonth + 3 else marchMonth - 9
  let year := yearOfEra + era * 400
  ⟨if month ≤ 2 then year + 1 else year, month, day⟩

/-- The first and the last year that instants are kept for. -/
def firstYear : Int := -262143
def lastYear : Int := 262142

end NotificationQueue.Calendar
