import NotificationQueue.Text.Decimal

/-! Lengths of time, to the nanosecond. -/
namespace NotificationQueue

structure Duration where
  nanoseconds : Nat
  deriving DecidableEq, Inhabited

namespace Duration

/-- Nanoseconds in a second. -/
def perSecond : Nat := 1000000000

def perMilli : Nat := 1000000

def perMicro : Nat := 1000

def ofSeconds (n : Nat) : Duration := ⟨n * perSecond⟩

def ofMillis (n : Nat) : Duration := ⟨n * perMilli⟩

def seconds (d : Duration) : Nat := d.nanoseconds / perSecond

def millis (d : Duration) : Nat := d.nanoseconds / perMilli

def micros (d : Duration) : Nat := d.nanoseconds / perMicro

def isZero (d : Duration) : Bool := d.nanoseconds = 0

/-- The digits behind a point, given how many places they fill; zeros at the end are dropped. -/
def fractionDigits (places n : Nat) : List Char :=
  ((Text.decimalPadded places n).reverse.dropWhile (· = '0')).reverse

/-- A number of units with the part of a unit left over, counted in `10 ^ places`-ths. -/
def inUnits (whole places rest : Nat) (unit : String) : String :=
  let fraction := fractionDigits places rest
  String.ofList (Text.decimal whole ++ (if fraction = [] then [] else '.' :: fraction)) ++ unit

/-- A duration in the largest unit that it fills: seconds, milliseconds, microseconds or
nanoseconds. -/
def describe (d : Duration) : String :=
  let n := d.nanoseconds
  if perSecond ≤ n then inUnits (n / perSecond) 9 (n % perSecond) "s"
  else if perMilli ≤ n then inUnits (n / perMilli) 6 (n % perMilli) "ms"
  else if perMicro ≤ n then inUnits (n / perMicro) 3 (n % perMicro) "µs"
  else inUnits n 0 0 "ns"

theorem seconds_ofSeconds (n : Nat) : (ofSeconds n).seconds = n := by
  simp [seconds, ofSeconds, perSecond]

theorem millis_ofMillis (n : Nat) : (ofMillis n).millis = n := by
  simp [millis, ofMillis, perMilli]

end Duration

end NotificationQueue
