/-! Decimal numerals: whole numbers as digits, and the reading of settings that must be whole. -/
namespace NotificationQueue.Text

def maxWord64 : Nat := 18446744073709551615

def maxSigned64 : Nat := 9223372036854775807

def digitValue? (c : Char) : Option Nat :=
  if c.isDigit then some (c.toNat - '0'.toNat) else none

/-- The number that a list of digits denotes, from a number already read. -/
def digitsValue (start : Nat) (ds : List Nat) : Nat :=
  ds.foldl (fun n d => 10 * n + d) start

/-- A text of digits alone, at least one. -/
def natural? (cs : List Char) : Option Nat :=
  if cs = [] then none else (cs.mapM digitValue?).map (digitsValue 0)

/-- A whole number of at most `max`; one plus sign may stand in front. -/
def unsigned? (max : Nat) (s : String) : Option Nat :=
  let digits := match s.toList with
    | '+' :: rest => rest
    | cs => cs
  (natural? digits).filter (· ≤ max)

def decimal (n : Nat) : List Char :=
  Nat.toDigits 10 n

/-- The digits of a number, with zeros in front up to a width. -/
def decimalPadded (width n : Nat) : List Char :=
  let digits := decimal n
  List.replicate (width - digits.length) '0' ++ digits

def decimalInt : Int → List Char
  | .ofNat n => decimal n
  | .negSucc n => '-' :: decimal (n + 1)

end NotificationQueue.Text
