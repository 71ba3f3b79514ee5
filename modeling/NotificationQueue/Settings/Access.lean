import NotificationQueue.Base64
import NotificationQueue.Settings.Environment
import NotificationQueue.Text.Letters

/-! Who may poll: everyone, or holders of tokens signed with a secret key. -/
namespace NotificationQueue

inductive AccessMode where
  | tokens
  | open
  deriving DecidableEq, Inhabited

/-- The mode of a name, in any letter case and with blanks around it; tokens are required unless
they are switched off. -/
def AccessMode.parse (s : String) : AccessMode :=
  let name := Text.lower (Text.trim s)
  if name = "none" ∨ name = "off" ∨ name = "disabled" then .open else .tokens

structure AccessSettings where
  mode : AccessMode
  secret : List UInt8
  deriving DecidableEq

namespace AccessSettings

def disabled : AccessSettings := ⟨.open, []⟩

def withSecret (secret : List UInt8) : AccessSettings := ⟨.tokens, secret⟩

/-- A key written in base 64, with blanks around it ignored. -/
def decodeSecret (s : String) : Except SettingsError (List UInt8) :=
  match Base64.standard.decode? (Text.trimmed s.toList) with
  | none => .error ⟨"JWT_SECRET is not valid base64"⟩
  | some [] => .error ⟨"JWT_SECRET must not be empty"⟩
  | some secret => .ok secret

/-- The settings that the environment gives; a key is needed only where tokens are. -/
def ofEnvironment (env : Environment) : Except SettingsError AccessSettings :=
  match ((env.text? "AUTH_MODE").map AccessMode.parse).getD .tokens with
  | .open => .ok disabled
  | .tokens =>
    match env.text? "JWT_SECRET" with
    | none => .error ⟨"JWT_SECRET environment variable required when AUTH_MODE=jwt"⟩
    | some s => (decodeSecret s).map withSecret

/-- The settings for a log, without the key. -/
def describe (s : AccessSettings) : String :=
  let mode := match s.mode with
    | .tokens => "Jwt"
    | .open => "None"
  "AuthConfig \x7b mode: " ++ mode ++ ", jwt_secret: \"<redacted>\" \x7d"

end AccessSettings

end NotificationQueue
