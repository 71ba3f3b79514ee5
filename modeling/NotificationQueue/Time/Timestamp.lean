import NotificationQueue.Text.Blank
import NotificationQueue.Text.Decimal
import NotificationQueue.Time.Calendar

/-!
Points in time as events carry them, and their RFC 3339 form. Reading is lenient about blanks and
digit counts; writing gives the universal time with the fewest groups of three fraction digits that
lose nothing.
-/
namespace NotificationQueue

/-- A point in time: seconds since the epoch and nanoseconds within the second. A leap second shows
as a second nanosecond count, from 10^9 on, of the second before it. -/
structure Timestamp where
  seconds : Int
  nanos : Nat
  deriving DecidableEq, Inhabited

/-- The ordering key of events: microseconds since the epoch. -/
abbrev Score := Int

namespace Timestamp

def perDay : Int := 86400

def earliestSecond : Int := (Calendar.Date.toDays ⟨Calendar.firstYear, 1, 1⟩) * perDay

def latestSecond : Int := (Calendar.Date.toDays ⟨Calendar.lastYear, 12, 31⟩) * perDay + (perDay - 1)

def latest : Timestamp := ⟨latestSecond, 999999999⟩

def isKept (seconds : Int) : Bool :=
  earliestSecond ≤ seconds && seconds ≤ latestSecond

def score (t : Timestamp) : Score :=
  t.seconds * 1000000 + t.nanos / 1000

def ofMicros? (micros : Int) : Option Timestamp :=
  let seconds := micros.fdiv 1000000
  if isKept seconds then some ⟨seconds, (micros - seconds * 1000000).toNat * 1000⟩ else none

/-- The latest point in time stands for all counts that are out of the calendar. -/
def ofMicros (micros : Int) : Timestamp :=
  (ofMicros? micros).getD latest

/-! ## Writing -/

/-- A year in four digits; before year zero and after 9999 with a sign. -/
def yearText (year : Int) : List Char :=
  if 0 ≤ year ∧ year ≤ 9999 then Text.decimalPadded 4 year.toNat
  else (if year < 0 then '-' else '+') :: Text.decimalPadded 4 year.natAbs

/-- The fraction of a second in none, three, six or nine digits. -/
def fractionText (nanos : Nat) : List Char :=
  if nanos = 0 then []
  else if nanos % 1000000 = 0 then '.' :: Text.decimalPadded 3 (nanos / 1000000)
  else if nanos % 1000 = 0 then '.' :: Text.decimalPadded 6 (nanos / 1000)
  else '.' :: Text.decimalPadded 9 nanos

def writeWith (fraction : Nat → List Char) (t : Timestamp) : String :=
  let days := t.seconds.fdiv perDay
  let second := (t.seconds - days * perDay).toNat
  let date := Calendar.Date.ofDays days
  let leap := t.nanos / 1000000000
  let two := Text.decimalPadded 2
  String.ofList <|
    yearText date.year ++ '-' :: two date.month ++ '-' :: two date.day ++
      'T' :: two (second / 3600) ++ ':' :: two (second / 60 % 60) ++
      ':' :: two (second % 60 + leap) ++ fraction (t.nanos % 1000000000) ++ ['Z']

def write (t : Timestamp) : String :=
  t.writeWith fractionText

def writeSeconds (t : Timestamp) : String :=
  t.writeWith fun _ => []

/-! ## Reading -/

/-- Digits at the start, at least one and at most `most` of them, with their count. -/
def digits? (most : Nat) (cs : List Char) : Option (List Nat × List Char) :=
  let ds := ((cs.takeWhile Char.isDigit).take most).filterMap Text.digitValue?
  if ds = [] then none else some (ds, cs.drop ds.length)

def number? (most : Nat) (cs : List Char) : Option (Nat × List Char) :=
  (digits? most (Text.dropBlanks cs)).map fun (ds, rest) => (Text.digitsValue 0 ds, rest)

/-- A year: of up to four digits, or of any length behind a sign. -/
def year? (cs : List Char) : Option (Int × List Char) :=
  let signed (sign : Int) (rest : List Char) : Option (Int × List Char) :=
    (digits? rest.length rest).map fun (ds, rest) => (sign * Text.digitsValue 0 ds, rest)
  match Text.dropBlanks cs with
  | '-' :: rest => signed (-1) rest
  | '+' :: rest => signed 1 rest
  | cs => (number? 4 cs).map fun (n, rest) => ((n : Int), rest)

def mark? (mark : Char) (cs : List Char) : Option (List Char) :=
  match Text.dropBlanks cs with
  | c :: rest => if c = mark then some rest else none
  | [] => none

/-- The nanoseconds of an optional fraction; digits after the ninth are dropped. -/
def fraction? : List Char → Option (Nat × List Char)
  | '.' :: cs => do
    let (ds, rest) ← digits? 9 cs
    return (Text.digitsValue 0 ds * Nat.pow 10 (9 - ds.length), rest.dropWhile Char.isDigit)
  | cs => some (0, cs)

def twoDigits? : List Char → Option (Nat × List Char)
  | a :: b :: rest => do
    let high ← Text.digitValue? a
    let low ← Text.digitValue? b
    return (10 * high + low, rest)
  | _ => none

/-- Seconds ahead of universal time: `UTC`, `Z`, or a sign with hours and minutes. -/
def offset? (cs : List Char) : Option (Int × List Char) :=
  let clock (sign : Int) (cs : List Char) : Option (Int × List Char) := do
    let (hours, rest) ← twoDigits? cs
    let (minutes, rest) ← twoDigits? (rest.dropWhile fun c => c = ':' || Text.isBlank c)
    if hours < 24 ∧ minutes < 60 then return (sign * (3600 * hours + 60 * minutes), rest) else none
  match cs with
  | '+' :: rest => clock 1 rest
  | '-' :: rest => clock (-1) rest
  | '\u2212' :: rest => clock (-1) rest
  | c :: rest =>
    if c = 'Z' ∨ c = 'z' then some (0, rest)
    else if (cs.take 3).map Char.toUpper = ['U', 'T', 'C'] then some (0, cs.drop 3)
    else none
  | [] => none

/-- A date and the sign that parts it from the time of day. -/
def date? (cs : List Char) : Option (Calendar.Date × List Char) := do
  let (year, cs) ← year? cs
  let (month, cs) ← number? 2 (← mark? '-' cs)
  let (day, cs) ← number? 2 (← mark? '-' cs)
  let date : Calendar.Date := ⟨year, month, day⟩
  match cs with
  | c :: rest => if (c = 'T' ∨ c = 't' ∨ c = ' ') ∧ date.isValid then return (date, rest) else none
  | [] => none

def timeOfDay? (cs : List Char) : Option ((Nat × Nat) × List Char) := do
  let (hour, cs) ← number? 2 cs
  let (minute, cs) ← number? 2 (← mark? ':' cs)
  let (second, cs) ← number? 2 (← mark? ':' cs)
  let (nanos, cs) ← fraction? cs
  if hour < 24 ∧ minute < 60 ∧ second ≤ 60 then
    let leap := second / 60
    return ((3600 * hour + 60 * minute + (second - leap), 1000000000 * leap + nanos), cs)
  else none

def read? (s : String) : Option Timestamp := do
  let (date, cs) ← date? s.toList
  let ((second, nanos), cs) ← timeOfDay? cs
  let (offset, cs) ← offset? (Text.dropBlanks cs)
  if cs.all Text.isBlank ∧ Calendar.firstYear ≤ date.year ∧ date.year ≤ Calendar.lastYear then
    let seconds := date.toDays * perDay + second - offset
    if isKept seconds then return ⟨seconds, nanos⟩ else none
  else none

end Timestamp

end NotificationQueue
