import NotificationQueue.Base64
import NotificationQueue.Clock
import NotificationQueue.Digest.Sha2
import NotificationQueue.Text.Blank
import NotificationQueue.Text.Utf8
import NotificationQueue.Time.Duration
import NotificationQueue.Token.Claims
import NotificationQueue.Token.Header

/-!
Issuing and validating access tokens. A token is a header, claims and a signature, each in base 64,
with points between them; the signature is a keyed digest of all that stands before it.
-/
namespace NotificationQueue.Token

inductive Refusal where
  | malformed
  /-- A part is no base 64, no text, or no JSON of the right form. -/
  | unreadable
  | algorithm
  | signature
  | expired
  | audience
  | wrongType (type : String)
  deriving DecidableEq

namespace Refusal

def name? : Refusal → Option String
  | .malformed => some "InvalidToken"
  | .algorithm => some "InvalidAlgorithm"
  | .signature => some "InvalidSignature"
  | .expired => some "ExpiredSignature"
  | .audience => some "InvalidAudience"
  | .unreadable | .wrongType _ => none

/-- What to say of a refusal; there is no fixed text for parts that cannot be read. -/
def message? : Refusal → Option String
  | .wrongType type => some ("unexpected token type: " ++ type)
  | refusal => refusal.name?.map ("invalid or expired token: " ++ ·)

end Refusal

/-! ## Signatures -/

def Algorithm.digest? : Algorithm → Option Digest.Sha2
  | .hs256 => some Digest.sha256
  | .hs384 => some Digest.sha384
  | .hs512 => some Digest.sha512
  | _ => none

def sign (digest : Digest.Sha2) (secret : List UInt8) (message : List Char) : List Char :=
  Base64.urlSafe.encode (digest.authenticate secret (Utf8.encode message))

def part (v : Json) : List Char :=
  Base64.urlSafe.encode (Utf8.encode v.render)

def tree? (cs : List Char) : Option Json.Tree :=
  (Base64.urlSafe.decode? cs).bind fun bytes => Json.readSymbols? (Utf8.decode bytes)

def read? {α : Type} (decode : Json.Decode α) (cs : List Char) : Option α :=
  (tree? cs).bind (decode Json.maxNesting)

/-! ## Validation -/

/-- How many seconds a token may be past its end. -/
def leeway : Int := 60

def secondOf (wall : Score) : Int := Int.fdiv wall 1000000

def hasEnded (r : Registered) (second : Int) : Bool :=
  match r.expiry with
  | none => false
  | some e => e < second - leeway

def validate (secret : List UInt8) (wall : Score) (token : String) : Except Refusal Claims :=
  match Text.splitLast '.' token.toList with
  | none => .error .malformed
  | some (message, signature) =>
    match Text.splitLast '.' message with
    | none => .error .malformed
    | some (header, payload) =>
      match read? decodeHeader header with
      | none => .error .unreadable
      | some algorithm =>
        match algorithm.digest? with
        | none => .error .algorithm
        | some digest =>
          if sign digest secret message ≠ signature then .error .signature
          else
            match read? Claims.decode payload, read? Registered.decode payload with
            | some claims, some registered =>
              if hasEnded registered (secondOf wall) then .error .expired
              else if registered.hasAudience then .error .audience
              else if claims.type ≠ Claims.accessType then .error (.wrongType claims.type)
              else .ok claims
            | _, _ => .error .unreadable

/-! ## Issue -/

/-- The claims of a token issued at a time, for a lifetime: both in nanoseconds. -/
def grantedClaims (user role : String) (now lifetime : Int) : Claims where
  subject := user
  type := Claims.accessType
  role := role
  expiry := some (Int.fdiv (now + lifetime) Duration.perSecond)
  issuedAt := some (Int.fdiv now Duration.perSecond)

def issuedClaims (user role : String) (wall : Score) (lifetimeMillis : Int) : Claims :=
  grantedClaims user role (wall * 1000) (lifetimeMillis * Duration.perMilli)

def issue (secret : List UInt8) (claims : Claims) : String :=
  let message := part issuedHeader ++ '.' :: part claims.toJson
  String.ofList (message ++ '.' :: sign Digest.sha256 secret message)

end NotificationQueue.Token
