import NotificationQueue.Http.Encoded
import NotificationQueue.Http.Uri
import NotificationQueue.Json.Basic

/-! Requests and responses. -/
namespace NotificationQueue.Http

/-! ## Headers -/

/-- Headers in their order: names in lower case, and values. -/
abbrev Headers := List (String × List UInt8)

def visibleText? (value : List UInt8) : Option String :=
  if value.all fun b => (32 ≤ b && b < 127) || b = 9 then
    some (String.ofList (value.map fun b => Char.ofNat b.toNat))
  else none

def Headers.first? (headers : Headers) (name : String) : Option (List UInt8) :=
  (headers.find? (·.1 = name)).map Prod.snd

def Headers.text? (headers : Headers) (name : String) : Option String :=
  (headers.first? name).bind visibleText?

def Headers.texts (headers : Headers) (name : String) : List String :=
  headers.filterMap fun (k, value) => if k = name then visibleText? value else none

/-! ## Requests -/

structure Request where
  method : String
  uri : Uri
  headers : Headers
  body : List UInt8

def Request.ofParts? (method uri : String) (headers : List (String × List UInt8))
    (body : List UInt8) : Option Request := do
  let method ← method? method
  let uri ← Uri.read? uri
  let headers ← headers.mapM fun (name, value) =>
    if value.all isValueByte then (headerName? name).map (·, value) else none
  return { method, uri, headers, body }

/-! ## Responses -/

structure Response where
  status : Nat
  headers : List (String × List UInt8) := []
  body : Option Json := none
  deriving Inhabited

def Response.json (status : Nat) (body : Json) : Response where
  status
  headers := [("content-type", Utf8.encode "application/json".toList)]
  body := some body

def Response.bare (status : Nat) : Response := { status }

def Response.addHeader (r : Response) (name value : String) : Response :=
  { r with headers := r.headers ++ [(name, Utf8.encode value.toList)] }

def Response.withoutBody (r : Response) : Response :=
  { r with body := none }

end NotificationQueue.Http
