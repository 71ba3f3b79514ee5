import NotificationQueue.Http.Name

/-! Addresses of requests: a path with an optional query, which may follow a scheme and an
authority. -/
namespace NotificationQueue.Http

/-- What of an address tells which route it means. -/
structure Uri where
  path : String
  /-- What stands behind the first question mark, still encoded. -/
  query : Option String := none
  deriving DecidableEq, Inhabited

namespace Uri

/-! ## Characters -/

def isPathChar (c : Char) : Bool :=
  let n := c.toNat
  n = 0x21 || n = 0x22 || (0x24 ≤ n && n ≤ 0x3B) || n = 0x3D || (0x40 ≤ n && n ≤ 0x5F) ||
    (0x61 ≤ n && n ≤ 0x7E) || 0x7F ≤ n

def isQueryChar (c : Char) : Bool :=
  let n := c.toNat
  n = 0x21 || (0x24 ≤ n && n ≤ 0x3B) || n = 0x3D || 0x3F ≤ n

def isSchemeChar (c : Char) : Bool :=
  c.isAlphanum || "+-.~".toList.contains c

def isAuthorityChar (c : Char) : Bool :=
  c.isAlphanum || "!$&'()*+,-.:;=@[]_~%".toList.contains c

/-! ## Reading -/

/-- Path and query; what stands behind a `#` is dropped. -/
def ofPath? (cs : List Char) : Option Uri :=
  let shown := cs.takeWhile (· ≠ '#')
  match Text.splitFirst '?' shown with
  | none => if shown.all isPathChar then some ⟨String.ofList shown, none⟩ else none
  | some (path, query) =>
    if path.all isPathChar ∧ query.all isQueryChar then
      some ⟨String.ofList path, some (String.ofList query)⟩
    else none

structure Authority where
  colons : Nat := 0
  opened : Bool := false
  closed : Bool := false
  percent : Bool := false
  endsInAt : Bool := false

def maxColons : Nat := 8

/-- One character more of an authority. What stands before an at sign may hold colons and percent
signs; a bracketed address may hold colons. -/
def Authority.step (a : Authority) (c : Char) : Option Authority :=
  let a := { a with endsInAt := false }
  if ¬ isAuthorityChar c then none
  else if c = ':' then
    if maxColons ≤ a.colons then none else some { a with colons := a.colons + 1 }
  else if c = '[' then if a.percent ∨ a.opened then none else some { a with opened := true }
  else if c = ']' then
    if ¬ a.opened ∨ a.closed then none
    else some { a with closed := true, colons := 0, percent := false }
  else if c = '@' then some { a with colons := 0, percent := false, endsInAt := true }
  else if c = '%' then some { a with percent := true }
  else some a

def isAuthority (cs : List Char) : Bool :=
  match cs.foldlM Authority.step {} with
  | none => false
  | some a => a.opened = a.closed && a.colons ≤ 1 && ! a.endsInAt && ! a.percent

def maxScheme : Nat := 64

def afterScheme? (cs : List Char) : Option (List Char) :=
  let scheme := cs.takeWhile isSchemeChar
  match cs.drop scheme.length with
  | ':' :: '/' :: '/' :: rest => some rest
  | _ => none

/-- The longest address, in bytes. -/
def maxLength : Nat := 65534

/-- Reads an address. An authority alone has no path; behind a scheme an empty path is the root. -/
def read? (s : String) : Option Uri :=
  let cs := s.toList
  if maxLength < s.utf8ByteSize then none
  else match cs with
    | [] => none
    | ['*'] => some ⟨"*", none⟩
    | '/' :: _ => ofPath? cs
    | _ =>
      let isEnd (c : Char) : Bool := c = '/' || c = '?' || c = '#'
      match afterScheme? cs with
      | none => if isAuthority cs then some ⟨"", none⟩ else none
      | some rest =>
        let authority := rest.takeWhile (! isEnd ·)
        if maxScheme < (cs.takeWhile (· ≠ ':')).length then none
        else if authority = [] ∨ ¬ isAuthority authority then none
        else
          (ofPath? (rest.drop authority.length)).map fun uri =>
            if uri.path = "" then { uri with path := "/" } else uri

end Uri

end NotificationQueue.Http
