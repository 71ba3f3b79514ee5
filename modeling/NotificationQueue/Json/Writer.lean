import NotificationQueue.Json.Basic
import NotificationQueue.Decimal.Shortest
import NotificationQueue.Text.Hex

/-!
Writing JSON: no blanks, members in their order, and in strings an escape for the quote, the
backslash and the control characters alone.
-/
namespace NotificationQueue.Json

def escapeChar (c : Char) : List Char :=
  if c = '"' then ['\\', '"']
  else if c = '\\' then ['\\', '\\']
  else if c = '\x08' then ['\\', 'b']
  else if c = '\x0c' then ['\\', 'f']
  else if c = '\n' then ['\\', 'n']
  else if c = '\r' then ['\\', 'r']
  else if c = '\t' then ['\\', 't']
  else if c.toNat < 0x20 then
    ['\\', 'u', '0', '0', Text.hexDigit (c.toNat / 16), Text.hexDigit (c.toNat % 16)]
  else [c]

def quote (cs : List Char) : List Char :=
  '"' :: cs.flatMap escapeChar ++ ['"']

mutual

def render : Json → List Char
  | .null => ['n', 'u', 'l', 'l']
  | .bool true => ['t', 'r', 'u', 'e']
  | .bool false => ['f', 'a', 'l', 's', 'e']
  | .int n => Text.decimalInt n
  | .real bits => Decimal.write bits
  | .str s => quote s.toList
  | .arr items => '[' :: renderItems items ++ [']']
  | .obj members => '\x7b' :: renderMembers members ++ ['\x7d']

def renderItems : List Json → List Char
  | [] => []
  | [v] => render v
  | v :: w :: rest => render v ++ ',' :: renderItems (w :: rest)

def renderMembers : List (String × Json) → List Char
  | [] => []
  | [(k, v)] => quote k.toList ++ ':' :: render v
  | (k, v) :: m :: rest => quote k.toList ++ ':' :: render v ++ ',' :: renderMembers (m :: rest)

end

def write (v : Json) : String :=
  String.ofList (render v)

end NotificationQueue.Json
