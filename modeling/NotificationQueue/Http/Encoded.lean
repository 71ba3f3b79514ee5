import NotificationQueue.Text.Blank
import NotificationQueue.Text.Hex
import NotificationQueue.Text.Utf8

/-! Percent-encoded texts, and the pairs of names and values that a query holds. -/
namespace NotificationQueue.Http

/-- Bytes in which a percent sign and two hexadecimal digits stand for one byte; any other percent
sign stands for itself. -/
def percentDecode : List UInt8 → List UInt8
  | [] => []
  | 0x25 :: a :: b :: rest =>
    match Text.hexValue? (Char.ofNat a.toNat), Text.hexValue? (Char.ofNat b.toNat) with
    | some high, some low => UInt8.ofNat (16 * high + low) :: percentDecode rest
    | _, _ => 0x25 :: percentDecode (a :: b :: rest)
  | byte :: rest => byte :: percentDecode rest
termination_by bytes => bytes.length

/-- A name or a value in a query: a plus stands for a blank, and bytes that are no text for
replacement characters. -/
def formText (cs : List Char) : String :=
  Utf8.decodeLossy (percentDecode (Utf8.encode (cs.map fun c => if c = '+' then ' ' else c)))

/-- The pairs of a query, in order; a name without an equals sign has an empty value. -/
def formPairs (query : String) : List (String × String) :=
  ((Text.splitAll '&' query.toList).filter (· ≠ [])).map fun pair =>
    match Text.splitFirst '=' pair with
    | some (name, value) => (formText name, formText value)
    | none => (formText pair, "")

/-- The value of a name that comes once at most; `none` where it comes more often. -/
def uniqueValue? (pairs : List (String × String)) (name : String) : Option (Option String) :=
  match pairs.filter (·.1 = name) with
  | [] => some none
  | [(_, value)] => some (some value)
  | _ => none

end NotificationQueue.Http
