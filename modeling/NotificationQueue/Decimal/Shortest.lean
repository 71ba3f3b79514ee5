import NotificationQueue.Text.Decimal

/-!
The shortest decimal that reads back as a given double. A double stands for every real nearer to
it than to its neighbours; of the decimals in that interval the one with the fewest digits is
written, and of two with equally few the nearer.
-/
namespace NotificationQueue.Decimal

/-! ## Doubles as exact numbers -/

/-- A number `mantissa · 2 ^ exponent`. -/
structure Dyadic where
  mantissa : Nat
  exponent : Int
  deriving DecidableEq

/-- The weight of the leading bit of a mantissa, which the bits of a double leave out. -/
def leadingBit : Nat := 4503599627370496

def exponentCount : Nat := 2048

def isNegative (bits : UInt64) : Bool :=
  leadingBit * exponentCount ≤ bits.toNat

def Dyadic.ofBits (bits : UInt64) : Dyadic :=
  let fraction := bits.toNat % leadingBit
  let exponent := bits.toNat / leadingBit % exponentCount
  if exponent = 0 then ⟨fraction, -1074⟩ else ⟨leadingBit + fraction, Int.ofNat exponent - 1075⟩

/-- The quotient of `x · 2 ^ twos` by `10 ^ tens`, as numerator and denominator. -/
def ratio (x : Nat) (twos tens : Int) : Nat × Nat :=
  (x * Nat.pow 2 twos.toNat * Nat.pow 10 (-tens).toNat,
    Nat.pow 10 tens.toNat * Nat.pow 2 (-twos).toNat)

def Dyadic.leadingExponent (d : Dyadic) : Int :=
  let guess : Int := ((Int.ofNat d.mantissa.log2 + d.exponent) * 30103).fdiv 100000
  let reaches (k : Int) : Bool :=
    let (num, den) := ratio d.mantissa d.exponent k
    den ≤ num
  if ¬ reaches guess then guess - 1
  else if reaches (guess + 1) then guess + 1
  else guess

/-! ## Candidates -/

/-- A decimal `digits · 10 ^ exponent`. -/
structure Scaled where
  digits : Nat
  exponent : Int
  deriving DecidableEq

/-- The decimal lies among the reals that round to the double: the ends of the interval count when
the mantissa is even, and the lower half is narrower below a power of two. -/
def Dyadic.covers (d : Dyadic) (s : Scaled) : Bool :=
  let quarters := 4 * d.mantissa
  let below := if d.mantissa = leadingBit ∧ d.exponent ≠ -1074 then 1 else 2
  let side (x : Nat) : Nat × Nat :=
    let (num, den) := ratio x (d.exponent - 2) s.exponent
    (s.digits * den, num)
  let (here, low) := side (quarters - below)
  let (_, high) := side (quarters + 2)
  if d.mantissa % 2 = 0 then low ≤ here && here ≤ high else low < here && here < high

/-- The decimal with a digit count, if there is one, that lies in the interval nearest to the
double. -/
def Dyadic.candidate? (d : Dyadic) (places : Nat) : Option Scaled :=
  let exponent := d.leadingExponent + 1 - places
  let (num, den) := ratio d.mantissa d.exponent exponent
  let below : Scaled := ⟨num / den, exponent⟩
  let above : Scaled := ⟨num / den + 1, exponent⟩
  let rest := num % den
  match d.covers below, d.covers above with
  | true, true =>
    if 2 * rest < den ∨ (2 * rest = den ∧ below.digits % 2 = 0) then some below else some above
  | true, false => some below
  | false, true => some above
  | false, false => none

/-- The shortest decimal of a double that is not zero. Seventeen digits always suffice. -/
def Dyadic.shortest (d : Dyadic) : Scaled :=
  ((List.range 17).findSome? fun n => d.candidate? (n + 1)).getD ⟨d.mantissa, 0⟩

/-- The digits without zeros at the end, which move into the exponent; `fuel` bounds them. -/
def Scaled.stripped (s : Scaled) : Nat → Scaled
  | 0 => s
  | fuel + 1 =>
    if s.digits ≠ 0 ∧ s.digits % 10 = 0 then Scaled.stripped ⟨s.digits / 10, s.exponent + 1⟩ fuel
    else s

/-! ## Written form -/

def widestPoint : Int := 16

def deepestPoint : Int := -5

/-- A double as text. A whole number keeps `.0`; an exponent keeps its sign. -/
def write (bits : UInt64) : List Char :=
  let sign := if isNegative bits then ['-'] else []
  let d := Dyadic.ofBits bits
  if d.mantissa = 0 then sign ++ ['0', '.', '0']
  else
    let s := d.shortest.stripped 17
    let digits := Text.decimal s.digits
    let point : Int := digits.length + s.exponent
    sign ++
      if 0 ≤ s.exponent ∧ point ≤ widestPoint then
        digits ++ List.replicate s.exponent.toNat '0' ++ ['.', '0']
      else if 0 < point ∧ point ≤ widestPoint then
        digits.take point.toNat ++ '.' :: digits.drop point.toNat
      else if deepestPoint < point ∧ point ≤ 0 then
        ['0', '.'] ++ List.replicate (-point).toNat '0' ++ digits
      else
        let exponent := point - 1
        let mark := if 0 ≤ exponent then '+' else '-'
        let tail := 'e' :: mark :: Text.decimal exponent.natAbs
        match digits with
        | first :: second :: rest => first :: '.' :: second :: rest ++ tail
        | _ => digits ++ tail

end NotificationQueue.Decimal
