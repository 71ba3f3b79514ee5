import NotificationQueue.Json.Basic
import NotificationQueue.Text.Decimal

/-!
Numerals: the grammar of JSON numbers and the value each denotes. A numeral without fraction and
exponent that fits a 64-bit word is a whole number. Any other is a double: its leading digits that
fit an unsigned word, times or divided by a power of ten.
-/
namespace NotificationQueue.Json

structure Numeral where
  negative : Bool
  whole : List Nat
  fraction : List Nat
  exponent : Option (Bool × List Nat)
  deriving DecidableEq

/-! ## Grammar -/

def leadingDigits (cs : List Char) : List Nat × List Char :=
  ((cs.takeWhile Char.isDigit).filterMap Text.digitValue?, cs.dropWhile Char.isDigit)

/-- The exponent that ends a numeral: whether it is negative, and its digits. -/
def exponentPart? (cs : List Char) : Option (Option (Bool × List Nat)) :=
  match cs with
  | [] => some none
  | e :: rest =>
    if e = 'e' ∨ e = 'E' then
      let (negative, digits) := match rest with
        | '+' :: ds => (false, ds)
        | '-' :: ds => (true, ds)
        | ds => (false, ds)
      match leadingDigits digits with
      | ([], _) => none
      | (ds, []) => some (some (negative, ds))
      | _ => none
    else none

/-- Reads a numeral: no zero in front of other digits, and a digit on each side of the point. -/
def Numeral.ofChars? (cs : List Char) : Option Numeral :=
  let (negative, unsigned) := match cs with
    | '-' :: rest => (true, rest)
    | _ => (false, cs)
  match leadingDigits unsigned with
  | ([], _) => none
  | (0 :: _ :: _, _) => none
  | (whole, '.' :: rest) =>
    match leadingDigits rest with
    | ([], _) => none
    | (fraction, tail) => (exponentPart? tail).map fun e => ⟨negative, whole, fraction, e⟩
  | (whole, tail) => (exponentPart? tail).map fun e => ⟨negative, whole, [], e⟩

/-! ## Value -/

/-- Takes digits into a number as long as it fits an unsigned word; the digits left over remain. -/
def takeDigits (n : Nat) : List Nat → Nat × List Nat
  | [] => (n, [])
  | d :: ds =>
    if 10 * n + d ≤ Text.maxWord64 then takeDigits (10 * n + d) ds else (n, d :: ds)

def powerOfTen (k : Nat) : Float :=
  Float.ofScientific 1 false k

/-- A double times ten to an exponent; `none` where it would be infinite. Division by large powers
is done in steps, which `fuel` counts. -/
def scaleDouble? (f : Float) (exponent : Int) : Nat → Option Float
  | 0 => some f
  | fuel + 1 =>
    if exponent.natAbs ≤ 308 then
      if 0 ≤ exponent then
        let product := f * powerOfTen exponent.natAbs
        if product.isInf then none else some product
      else some (f / powerOfTen exponent.natAbs)
    else if f == 0 then some f
    else if 0 ≤ exponent then none
    else scaleDouble? (f / powerOfTen 308) (exponent + 308) fuel

/-- The largest exponent that is read; a greater one leaves zero or nothing. -/
def maxExponent : Nat := 2147483647

def Numeral.double? (n : Numeral) : Option UInt64 :=
  let (start, dropped) := takeDigits 0 n.whole
  let (significand, ignored) := takeDigits start n.fraction
  let places : Int := dropped.length - (n.fraction.length - ignored.length : Int)
  let signed (f : Float) : UInt64 := (if n.negative then -f else f).toBits
  let zero : UInt64 := signed 0
  let scaled (exponent : Int) : Option UInt64 :=
    (scaleDouble? (UInt64.ofNat significand).toFloat exponent
      (exponent.natAbs / 308 + 2)).map signed
  match n.exponent with
  | none => scaled places
  | some (down, ds) =>
    let e := Text.digitsValue 0 ds
    if maxExponent < e then (if significand ≠ 0 ∧ ¬ down then none else some zero)
    else scaled (if down then places - e else places + e)

/-- The value of a numeral. Minus zero is a double. -/
def Numeral.value? (n : Numeral) : Option Json :=
  let magnitude := Text.digitsValue 0 n.whole
  if n.fraction = [] ∧ n.exponent = none then
    if ¬ n.negative ∧ magnitude ≤ Text.maxWord64 then some (.int magnitude)
    else if n.negative ∧ magnitude ≠ 0 ∧ magnitude ≤ Text.maxSigned64 + 1 then
      some (.int (-magnitude))
    else n.double?.map .real
  else n.double?.map .real

end NotificationQueue.Json
