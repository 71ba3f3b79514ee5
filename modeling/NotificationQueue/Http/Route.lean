import NotificationQueue.Http.Message

/-!
Routes: which paths the service answers, and with which methods. All routes but one lie behind a
prefix, in which a colon begins a parameter that stands for any text without a slash.
-/
namespace NotificationQueue.Http

inductive Route where
  | health
  | ping
  | internalPing
  | pollEvents
  | pollUserEvents
  | pollAdminEvents
  | publishEvent
  | publishOrderStatusChange
  | publishNewOrder
  | publishOrderUpdate
  | document
  deriving DecidableEq, Inhabited

namespace Route

def all : List Route :=
  [.health, .ping, .internalPing, .pollEvents, .pollUserEvents, .pollAdminEvents, .publishEvent,
    .publishOrderStatusChange, .publishNewOrder, .publishOrderUpdate, .document]

def path : Route → String
  | .health => "/health"
  | .ping => "/v1/ping"
  | .internalPing => "/v1/internal/ping"
  | .pollEvents => "/v1/polling/events"
  | .pollUserEvents => "/v1/polling/user/events"
  | .pollAdminEvents => "/v1/polling/admin/events"
  | .publishEvent => "/v1/internal/events/publish"
  | .publishOrderStatusChange => "/v1/internal/events/order-status-change"
  | .publishNewOrder => "/v1/internal/events/new-order"
  | .publishOrderUpdate => "/v1/internal/events/order-update"
  | .document => "/api-doc/openapi.json"

def isPrefixed : Route → Bool
  | .health | .document => false
  | _ => true

/-- The route changes something, and takes the method `POST`; all others take `GET` and `HEAD`. -/
def isPublish : Route → Bool
  | .publishEvent | .publishOrderStatusChange | .publishNewOrder | .publishOrderUpdate => true
  | _ => false

def allowed (r : Route) : String :=
  if r.isPublish then "POST" else "GET,HEAD"

def takes (r : Route) (method : String) : Bool :=
  if r.isPublish then method = "POST" else method = "GET" || method = "HEAD"

/-! ## Prefixes -/

def segments (cs : List Char) : List (List Char) :=
  Text.splitAll '/' cs

/-- A part of a prefix has at most one parameter, and that has a name. -/
def isSegment (cs : List Char) : Bool :=
  match Text.splitFirst ':' cs with
  | none => true
  | some (_, name) => name ≠ [] && ! name.contains ':'

def maxParameters : Nat := 25

/-- Where the pages for readers of the interface document lie. Whatever follows belongs to them, so
that no parameter can stand right there. -/
def pagesPath : List Char := "/swagger-ui/".toList

/-- Routes can lie behind the prefix: it is empty, or begins with a slash, holds no asterisk, and
has well-formed parameters, not too many of them and none where the pages lie. -/
def isPathStart (start : String) : Bool :=
  start = "" ||
    (start.toList.head? = some '/' && ! start.toList.contains '*' &&
      (segments start.toList).all isSegment && start.toList.count ':' ≤ maxParameters &&
      ! (pagesPath ++ [':']).isPrefixOf start.toList)

/-- The path of a route behind a prefix. A slash at the end of the prefix is not doubled. -/
def fullPath (start : String) (r : Route) : List Char :=
  if r.isPrefixed then
    if start.toList.getLast? = some '/' then start.toList.dropLast ++ r.path.toList
    else start.toList ++ r.path.toList
  else r.path.toList

/-! ## Matching -/

def segmentFits (pattern cs : List Char) : Bool :=
  match Text.splitFirst ':' pattern with
  | none => pattern = cs
  | some (start, _) => start.isPrefixOf cs && start.length < cs.length

def fits (pattern path : List Char) : Bool :=
  let ps := segments pattern
  let cs := segments path
  ps.length = cs.length && (List.zipWith segmentFits ps cs).all id

def find? (start : String) (path : String) : Option Route :=
  all.find? fun r => fits (r.fullPath start) path.toList

end Route

end NotificationQueue.Http
