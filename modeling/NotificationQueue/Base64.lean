/-!
Base 64: three bytes as four characters, each of them six bits. The standard alphabet is padded to
full groups of four; the alphabet for addresses is not. Reading takes only what writing produces:
bits that no byte needs must be zero.
-/
namespace NotificationQueue.Base64

/-- A choice of characters for the values 62 and 63, and whether the last group is padded. -/
structure Alphabet where
  char62 : Char
  char63 : Char
  padded : Bool
  deriving DecidableEq

def standard : Alphabet := ⟨'+', '/', true⟩

def urlSafe : Alphabet := ⟨'-', '_', false⟩

def Alphabet.char (a : Alphabet) (n : Nat) : Char :=
  if n < 26 then Char.ofNat ('A'.toNat + n)
  else if n < 52 then Char.ofNat ('a'.toNat + (n - 26))
  else if n < 62 then Char.ofNat ('0'.toNat + (n - 52))
  else if n = 62 then a.char62
  else a.char63

def Alphabet.value? (a : Alphabet) (c : Char) : Option Nat :=
  if 'A' ≤ c ∧ c ≤ 'Z' then some (c.toNat - 'A'.toNat)
  else if 'a' ≤ c ∧ c ≤ 'z' then some (c.toNat - 'a'.toNat + 26)
  else if '0' ≤ c ∧ c ≤ '9' then some (c.toNat - '0'.toNat + 52)
  else if c = a.char62 then some 62
  else if c = a.char63 then some 63
  else none

/-! ## Writing -/

def Alphabet.pad (a : Alphabet) (n : Nat) : List Char :=
  if a.padded then List.replicate n '=' else []

def Alphabet.encode (a : Alphabet) : List UInt8 → List Char
  | [] => []
  | [x] =>
    let n := x.toNat
    [a.char (n / 4), a.char (n % 4 * 16)] ++ a.pad 2
  | [x, y] =>
    let n := 256 * x.toNat + y.toNat
    [a.char (n / 1024), a.char (n / 16 % 64), a.char (n % 16 * 4)] ++ a.pad 1
  | x :: y :: z :: rest =>
    let n := 65536 * x.toNat + 256 * y.toNat + z.toNat
    a.char (n / 262144) :: a.char (n / 4096 % 64) :: a.char (n / 64 % 64) :: a.char (n % 64) ::
      a.encode rest

/-! ## Reading -/

/-- The bytes of six-bit values. One value alone is less than a byte, and what is left over of two
or three must be zero. -/
def bytesOfValues? : List Nat → Option (List UInt8)
  | [] => some []
  | [_] => none
  | [p, q] => if q % 16 = 0 then some [UInt8.ofNat (4 * p + q / 16)] else none
  | [p, q, r] =>
    if r % 4 = 0 then some [UInt8.ofNat (4 * p + q / 16), UInt8.ofNat (q % 16 * 16 + r / 4)]
    else none
  | p :: q :: r :: s :: rest =>
    (bytesOfValues? rest).map fun bytes =>
      UInt8.ofNat (4 * p + q / 16) :: UInt8.ofNat (q % 16 * 16 + r / 4) ::
        UInt8.ofNat (r % 4 * 64 + s) :: bytes

/-- Takes away the padding of the last group, which must be just what the group lacks. -/
def unpadded? (cs : List Char) : Option (List Char) :=
  let body := (cs.reverse.dropWhile (· = '=')).reverse
  let pads := cs.length - body.length
  if cs.length % 4 = 0 ∧ pads ≤ 2 ∧ (pads = 0 ∨ body.length % 4 ≠ 0) then some body else none

def Alphabet.decode? (a : Alphabet) (cs : List Char) : Option (List UInt8) := do
  let body ← if a.padded then unpadded? cs else some cs
  let values ← body.mapM a.value?
  bytesOfValues? values

end NotificationQueue.Base64
