import NotificationQueue.Json.Basic
import NotificationQueue.Text.Blank
import NotificationQueue.Text.Decimal

/-! Pointers into JSON values: the names and the places to go through, each behind a slash. -/
namespace NotificationQueue.Json

/-- A part of a pointer in plain text: `~1` stands for a slash and `~0` for a tilde. -/
def unescape : List Char → List Char
  | [] => []
  | '~' :: '1' :: rest => '/' :: unescape rest
  | '~' :: '0' :: rest => '~' :: unescape rest
  | c :: rest => c :: unescape rest

/-- A place in an array: a number without zeros in front. -/
def place? (cs : List Char) : Option Nat :=
  if cs.head? = some '0' ∧ cs ≠ ['0'] then none else Text.natural? cs

def child? (cs : List Char) : Json → Option Json
  | .obj members => lookup (String.ofList cs) members
  | .arr items => (place? cs).bind (items[·]?)
  | _ => none

def at? (v : Json) (pointer : String) : Option Json :=
  match Text.splitAll '/' pointer.toList with
  | [] :: parts => parts.foldlM (fun v part => child? (unescape part) v) v
  | _ => none

end NotificationQueue.Json
