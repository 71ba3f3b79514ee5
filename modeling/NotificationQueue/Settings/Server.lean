import NotificationQueue.Http.Name
import NotificationQueue.Settings.Environment
import NotificationQueue.Text.Letters

/-! Settings of the server: its port, its store, which other sites may call it, and where its routes
lie. -/
namespace NotificationQueue

inductive StoreBackend where
  | postgres
  | memory
  deriving DecidableEq, Inhabited

namespace StoreBackend

/-- The kind of store of a name, in any letter case and with blanks around it. -/
def parse (s : String) : Except SettingsError StoreBackend :=
  let name := Text.lower (Text.trim s)
  if name = "postgres" ∨ name = "postgresql" then .ok .postgres
  else if name = "memory" ∨ name = "in-memory" then .ok .memory
  else .error ⟨"unknown STORE_BACKEND: " ++ name⟩

end StoreBackend

/-! ## Calls from other sites -/

/-- Which sites may call, with which methods and headers. The origin `*` stands for every site. -/
structure CrossOrigin where
  origins : List String
  methods : List String
  headers : List String
  deriving DecidableEq

namespace CrossOrigin

def methodsOf (names : List String) : List String :=
  names.filterMap Http.method?

def headersOf (names : List String) : List String :=
  names.filterMap Http.headerName?

def default : CrossOrigin where
  origins := ["*"]
  methods := ["GET", "POST", "PUT", "DELETE", "OPTIONS"]
  headers := ["origin", "content-type", "authorization"]

def allowsAny (c : CrossOrigin) : Bool :=
  c.origins.contains "*"

def originValues (c : CrossOrigin) : List String :=
  c.origins.filter fun o => o ≠ "*" && (Utf8.encode o.toList).all Http.isValueByte

end CrossOrigin

/-! ## Server settings -/

structure DatabaseSettings where
  url : String
  maxConnections : Nat
  minConnections : Nat
  deriving DecidableEq

structure ServerSettings where
  port : Nat
  backend : StoreBackend
  /-- Set where the store is a database. -/
  database : Option DatabaseSettings
  crossOrigin : CrossOrigin
  purgeSeconds : Nat
  /-- What stands in front of the routes for polls and publishes. -/
  pathStart : String
  deriving DecidableEq

namespace ServerSettings

def maxPort : Nat := 65535

def maxConnectionCount : Nat := 4294967295

/-- The port, 9001 where none is set. Unlike other numbers it must stand without blanks. -/
def portOf (env : Environment) : Except SettingsError Nat :=
  match env.text? "PORT" with
  | none => .ok 9001
  | some p =>
    match Text.unsigned? maxPort p with
    | some n => .ok n
    | none => .error ⟨"invalid PORT: " ++ p⟩

/-- The kind of store, a database where none is named. -/
def backendOf (env : Environment) : Except SettingsError StoreBackend :=
  match env.text? "STORE_BACKEND" with
  | none => .ok .postgres
  | some s => if s = "" then .ok .postgres else StoreBackend.parse s

def databaseOf (env : Environment) : StoreBackend → Except SettingsError (Option DatabaseSettings)
  | .memory => .ok none
  | .postgres =>
    match env.text? "DATABASE_URL" with
    | none => .error ⟨"DATABASE_URL environment variable required"⟩
    | some url =>
      .ok <| some {
        url
        maxConnections := (env.number? "DATABASE_MAX_CONNECTIONS" maxConnectionCount).getD 50
        minConnections := (env.number? "DATABASE_MIN_CONNECTIONS" maxConnectionCount).getD 10 }

def crossOriginOf (env : Environment) : CrossOrigin where
  origins := (env.list? "CORS_ALLOWED_ORIGINS").getD CrossOrigin.default.origins
  methods :=
    ((env.list? "CORS_ALLOWED_METHODS").map CrossOrigin.methodsOf).getD
      CrossOrigin.default.methods
  headers :=
    ((env.list? "CORS_ALLOWED_HEADERS").map CrossOrigin.headersOf).getD
      CrossOrigin.default.headers

def ofEnvironment (env : Environment) : Except SettingsError ServerSettings := do
  let port ← portOf env
  let backend ← backendOf env
  let database ← databaseOf env backend
  return {
    port, backend, database
    crossOrigin := crossOriginOf env
    purgeSeconds :=
      ((env.number? "QUEUE_PURGE_INTERVAL_SECS" Text.maxWord64).filter (0 < ·)).getD 60
    pathStart := (env.text? "API_PREFIX").getD "" }

end ServerSettings

end NotificationQueue
