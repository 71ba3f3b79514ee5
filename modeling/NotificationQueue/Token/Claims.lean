import NotificationQueue.Json.Record
import NotificationQueue.Json.Writer

/-! What an access token says: whose it is, of which kind and role, and until when it holds. -/
namespace NotificationQueue.Token

/-- The claims of a token. Times are seconds since the epoch. -/
structure Claims where
  subject : String
  type : String
  role : String
  expiry : Option Int := none
  issuedAt : Option Int := none
  deriving DecidableEq, Inhabited

namespace Claims

def accessType : String := "access_token"

def adminRole : String := "ADMIN"

def toJson (c : Claims) : Json :=
  Json.record [("sub", some (.str c.subject)), ("type", some (.str c.type)),
    ("role", some (.str c.role)), ("exp", c.expiry.map .int), ("iat", c.issuedAt.map .int)]

def fields : List Json.Field :=
  [⟨"sub", false⟩, ⟨"type", false⟩, ⟨"role", true⟩, ⟨"exp", true⟩, ⟨"iat", true⟩]

def decode : Json.Decode Claims := fun room t => do
  let fs ← Json.fields? fields room t
  return {
    subject := ← fs.required "sub" Json.decodeText
    type := ← fs.required "type" Json.decodeText
    role := ← fs.orElse "role" "" Json.decodeText
    expiry := ← fs.nullable "exp" Json.decodeSigned
    issuedAt := ← fs.nullable "iat" Json.decodeSigned }

end Claims

/-! ## Registered claims -/

/-- What is asked of the claims that every kind of token shares. -/
structure Registered where
  /-- When the token ends, if that is told as a number of seconds. -/
  expiry : Option Nat
  hasAudience : Bool
  deriving DecidableEq

namespace Registered

def fields : List Json.Field :=
  [⟨"exp", false⟩, ⟨"nbf", false⟩, ⟨"sub", false⟩, ⟨"iss", false⟩, ⟨"aud", false⟩]

/-- A value that is passed over: a container counts only where it is empty. -/
def skipScalar : Json.Decode Unit
  | _, .array [] => some ()
  | _, .object [] => some ()
  | _, .array _ => none
  | _, .object _ => none
  | _, .text pieces => (Json.textOfPieces? pieces).map fun _ => ()
  | _, _ => some ()

def skipValue : Json.Decode Unit
  | _, .number _ => some ()
  | room, t => (Json.decodeValue room t).map fun _ => ()

def isAudience : Json.Decode Bool
  | _, .number _ => some false
  | room, t =>
    (Json.decodeValue room t).map fun v =>
      match v with
      | .str _ => true
      | .arr items => items.all fun item =>
        match item with
        | .str _ => true
        | _ => false
      | _ => false

/-- Reads the registered claims. What does not have the expected form is passed over, as long as it
is well formed; none of the claims need be there in an object, and all must be in an array. -/
def decode : Json.Decode Registered := fun room t => do
  let fs ← Json.fields? fields room t
  fs.orElse "nbf" () skipScalar
  fs.orElse "sub" () skipValue
  fs.orElse "iss" () skipValue
  let hasAudience ← fs.orElse "aud" false isAudience
  return {
    expiry := (fs.tree? "exp").bind (Json.decodeWord fs.room)
    hasAudience }

end Registered

end NotificationQueue.Token
