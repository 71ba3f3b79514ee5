import NotificationQueue.Http.Message
import NotificationQueue.Settings.Access
import NotificationQueue.Token.Validation

/-!
Who calls. A token is looked for in the `authorization` header, then in the query, then in the
cookies; the first that is found is judged, and no other.
-/
namespace NotificationQueue

structure Caller where
  id : String
  role : String
  deriving DecidableEq, Inhabited

def Caller.isAdmin (c : Caller) : Bool :=
  c.role = Token.Claims.adminRole

/-- The caller where no tokens are asked for: an administrator. -/
def Caller.anonymous : Caller := ⟨"anonymous", Token.Claims.adminRole⟩

inductive AccessDenial where
  | missingToken
  | wrongTokenType
  | invalidToken
  /-- The token names no user. -/
  | nobody
  | notAdmin
  deriving DecidableEq

namespace AccessDenial

def message : AccessDenial → String
  | .missingToken => "Missing authentication token"
  | .wrongTokenType => "Invalid token type, expected access token"
  | .invalidToken => "Invalid or expired token"
  | .nobody => "Unauthorized access"
  | .notAdmin => "Admin access required"

/-- The status of the response: only a known caller can lack a role. -/
def status : AccessDenial → Nat
  | .notAdmin => 403
  | _ => 401

end AccessDenial

namespace Access

/-! ## Finding the token -/

def tokenName : String := "token"

/-- The token of an `authorization` header: the second of two words, the first being `bearer`. -/
def bearerToken? (value : String) : Option String :=
  match Text.words value.toList with
  | [scheme, token] =>
    if scheme.map Char.toLower = "bearer".toList then some (String.ofList token) else none
  | _ => none

/-- The token of a query: the value, as it stands, of the first pair named `token`. -/
def queryToken? (query : String) : Option String :=
  let pairs := (Text.splitAll '&' query.toList).filterMap (Text.splitFirst '=')
  ((pairs.find? (·.1 = tokenName.toList)).map fun pair => String.ofList pair.2).filter (· ≠ "")

def decoded? (cs : List Char) : Option String :=
  Utf8.decode? (Http.percentDecode (Utf8.encode cs))

def cookie? (cs : List Char) : Option (String × String) := do
  let (name, value) ← Text.splitFirst '=' cs
  let name := Text.trimmed name
  if name = [] then none else return (← decoded? name, ← decoded? (Text.trimmed value))

/-- The token among cookies: of several cookies of its name the last. -/
def cookieToken? (values : List String) : Option String :=
  let cookies := (values.flatMap fun v => Text.splitAll ';' v.toList).filterMap cookie?
  ((cookies.reverse.find? (·.1 = tokenName)).map Prod.snd).filter (· ≠ "")

def token? (r : Http.Request) : Option String :=
  ((r.headers.text? "authorization").bind bearerToken?).or
    ((r.uri.query.bind queryToken?).or (cookieToken? (r.headers.texts "cookie")))

/-! ## Judging it -/

def callerOf (secret : List UInt8) (wall : Score) (token : String) : Except AccessDenial Caller :=
  match Token.validate secret wall token with
  | .error (.wrongType _) => .error .wrongTokenType
  | .error _ => .error .invalidToken
  | .ok claims =>
    if claims.subject = "" then .error .nobody else .ok ⟨claims.subject, claims.role⟩

def caller (settings : AccessSettings) (wall : Score) (r : Http.Request) :
    Except AccessDenial Caller :=
  match settings.mode with
  | .open => .ok .anonymous
  | .tokens =>
    match token? r with
    | none => .error .missingToken
    | some token => callerOf settings.secret wall token

def adminCaller (settings : AccessSettings) (wall : Score) (r : Http.Request) :
    Except AccessDenial Caller := do
  let c ← caller settings wall r
  if c.isAdmin then return c else throw .notAdmin

end Access

end NotificationQueue
