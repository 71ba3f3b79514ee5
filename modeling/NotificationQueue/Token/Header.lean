import NotificationQueue.Json.Record

/-! Headers of tokens: how a token is signed, and by which key. -/
namespace NotificationQueue.Token

/-- The ways to sign a token. Keys are shared by three of them. -/
inductive Algorithm where
  | hs256
  | hs384
  | hs512
  | es256
  | es384
  | rs256
  | rs384
  | rs512
  | ps256
  | ps384
  | ps512
  | edDsa
  deriving DecidableEq, Inhabited

namespace Algorithm

def all : List Algorithm :=
  [.hs256, .hs384, .hs512, .es256, .es384, .rs256, .rs384, .rs512, .ps256, .ps384, .ps512, .edDsa]

def name : Algorithm → String
  | .hs256 => "HS256"
  | .hs384 => "HS384"
  | .hs512 => "HS512"
  | .es256 => "ES256"
  | .es384 => "ES384"
  | .rs256 => "RS256"
  | .rs384 => "RS384"
  | .rs512 => "RS512"
  | .ps256 => "PS256"
  | .ps384 => "PS384"
  | .ps512 => "PS512"
  | .edDsa => "EdDSA"

def named? (s : String) : Option Algorithm :=
  all.find? (·.name = s)

end Algorithm

/-! ## Keys -/

def isText : Json.Decode Unit := fun room t =>
  (Json.decodeText room t).map fun _ => ()

def isOneOf (names : List String) : Json.Decode Unit :=
  Json.decodeName fun s => if names.contains s then some () else none

def keyDescription : List (String × Json.Decode Unit) :=
  [("use", isText), ("key_ops", fun room t => (Json.decodeList isText room t).map fun _ => ()),
    ("alg", isText), ("kid", isText), ("x5u", isText),
    ("x5c", fun room t => (Json.decodeList isText room t).map fun _ => ()), ("x5t", isText),
    ("x5t#S256", isText)]

def curves : List String := ["P-256", "P-384", "P-521", "Ed25519"]

def keyKinds : List (List (String × Json.Decode Unit)) :=
  [[("kty", isOneOf ["EC"]), ("crv", isOneOf curves), ("x", isText), ("y", isText)],
    [("kty", isOneOf ["RSA"]), ("n", isText), ("e", isText)],
    [("kty", isOneOf ["oct"]), ("k", isText)],
    [("kty", isOneOf ["OKP"]), ("crv", isOneOf curves), ("x", isText)]]

def isKey : Json.Decode Unit := fun room t => do
  let _ ← Json.decodeValue room t
  match t with
  | .object _ =>
    let names := (keyDescription ++ keyKinds.flatten).map Prod.fst
    let fs ← Json.fields? (names.map fun name => ⟨name, false⟩) room t
    let described := keyDescription.all fun (name, check) => (fs.nullable name check).isSome
    let ofKind := keyKinds.any fun kind =>
      kind.all fun (name, check) => (fs.required name check).isSome
    if described ∧ ofKind then return () else none
  | _ => none

/-! ## Headers -/

def headerFields : List Json.Field :=
  [⟨"typ", false⟩, ⟨"alg", false⟩, ⟨"cty", false⟩, ⟨"jku", false⟩, ⟨"jwk", false⟩, ⟨"kid", false⟩,
    ⟨"x5u", false⟩, ⟨"x5c", false⟩, ⟨"x5t", false⟩, ⟨"x5t#S256", false⟩]

/-- Reads a header for its algorithm; all else in it must have the right form. -/
def decodeHeader : Json.Decode Algorithm := fun room t => do
  let fs ← Json.fields? headerFields room t
  let algorithm ← fs.required "alg" (Json.decodeName Algorithm.named?)
  for name in ["typ", "cty", "jku", "kid", "x5u", "x5t", "x5t#S256"] do
    let _ ← fs.nullable name isText
  let _ ← fs.nullable "jwk" isKey
  let _ ← fs.nullable "x5c" (Json.decodeList isText)
  return algorithm

def issuedHeader : Json :=
  .obj [("typ", .str "JWT"), ("alg", .str Algorithm.hs256.name)]

end NotificationQueue.Token
