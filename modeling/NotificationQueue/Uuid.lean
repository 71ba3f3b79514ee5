import NotificationQueue.Text.Hex

/-!
Event ids: 128-bit numbers. The canonical form has 32 lower-case hexadecimal digits in groups of
8, 4, 4, 4 and 12 with hyphens between them; reading also takes the digits alone, braces around the
canonical form, or `urn:uuid:` in front of it, in either letter case.
-/
namespace NotificationQueue

/-- An event id: its 32 hexadecimal digits. -/
structure Uuid where
  digits : List Nat
  deriving DecidableEq, Inhabited

namespace Uuid

def digitCount : Nat := 32

def IsWellFormed (id : Uuid) : Prop :=
  id.digits.length = digitCount ∧ ∀ d ∈ id.digits, d < 16

/-! ## Writing -/

/-- Characters in groups of 8, 4, 4, 4 and the rest, with hyphens between the groups. -/
def hyphenated (cs : List Char) : List Char :=
  cs.take 8 ++ '-' :: (cs.drop 8).take 4 ++ '-' :: (cs.drop 12).take 4 ++
    '-' :: (cs.drop 16).take 4 ++ '-' :: cs.drop 20

def simpleChars (id : Uuid) : List Char :=
  id.digits.map Text.hexDigit

def toChars (id : Uuid) : List Char :=
  hyphenated id.simpleChars

def write (id : Uuid) : String :=
  String.ofList id.toChars

/-! ## Reading -/

def ofDigits? (cs : List Char) : Option Uuid :=
  if cs.length = digitCount then (cs.mapM Text.hexValue?).map Uuid.mk else none

def ofHyphenated? (cs : List Char) : Option Uuid :=
  let digits := cs.filter (· ≠ '-')
  if cs.length = digitCount + 4 ∧ hyphenated digits = cs then ofDigits? digits else none

def urn : List Char := "urn:uuid:".toList

/-- The name of the namespace is taken in either letter case, as the later releases of uuid 1 take
it. -/
def ofChars? (cs : List Char) : Option Uuid :=
  if cs.length = digitCount then ofDigits? cs
  else if cs.length = digitCount + 6 then
    match cs with
    | '\x7b' :: rest => if rest.getLast? = some '\x7d' then ofHyphenated? rest.dropLast else none
    | _ => none
  else if (cs.take urn.length).map Char.toLower = urn then ofHyphenated? (cs.drop urn.length)
  else ofHyphenated? cs

def read? (s : String) : Option Uuid :=
  ofChars? s.toList

end Uuid

end NotificationQueue
