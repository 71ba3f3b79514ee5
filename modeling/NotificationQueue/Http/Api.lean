import NotificationQueue.Access
import NotificationQueue.Http.CrossOrigin
import NotificationQueue.Http.Envelope
import NotificationQueue.Http.MediaType
import NotificationQueue.Http.Route
import NotificationQueue.Poll
import NotificationQueue.Publish

/-!
The HTTP interface. A request is either answered at once, which is so for everything that is
refused, or leads to one operation of the service, whose result then becomes the response.
-/
namespace NotificationQueue.Http

structure Api where
  pathStart : String
  crossOrigin : CrossOrigin
  access : AccessSettings

def Api.build? (pathStart : String) (crossOrigin : CrossOrigin) (access : AccessSettings) :
    Option Api :=
  if Route.isPathStart pathStart ∧ isServable crossOrigin then
    some ⟨pathStart, crossOrigin, access⟩
  else none

inductive Plan where
  | respond (r : Response)
  | poll (request : PollRequest) (message : String)
  | publish (draft : Draft) (message : String)
  | probe
  | document

/-! ## Polls -/

structure PollParameters where
  eventType : Option String
  lastEventId : Option String
  longPoll : Bool

def parseBool? (s : String) : Option Bool :=
  if s = "true" then some true else if s = "false" then some false else none

/-- The parameters of a query. The type is a parameter only where `typed` says so. -/
def PollParameters.read? (typed : Bool) (query : Option String) : Option PollParameters := do
  let pairs := formPairs (query.getD "")
  let eventType ← if typed then uniqueValue? pairs "eventType" else some none
  let lastEventId ← uniqueValue? pairs "lastEventId"
  let longPoll ← uniqueValue? pairs "longPoll"
  let longPoll ← match longPoll with
    | none => some false
    | some s => parseBool? s
  return { eventType, lastEventId, longPoll }

def deny (d : AccessDenial) : ErrorReply :=
  { status := d.status, message := d.message }

def readParameters (typed : Bool) (r : Request) : Except ErrorReply PollParameters :=
  match PollParameters.read? typed r.uri.query with
  | some p => .ok p
  | none => .error (.badRequest "Invalid request parameters")

/-- The type that a poll asks for; an empty one is none. -/
def readType (name : Option String) : Except ErrorReply (Option EventType) :=
  match cursorOf name with
  | none => .ok none
  | some s =>
    match EventType.named? s with
    | some t => .ok (some t)
    | none => .error (.badRequest "Invalid event type")

/-- The poll of a caller: of the caller's own queue, or of the queue that holds events of a type. -/
def eventsPoll (c : Caller) (r : Request) : Except ErrorReply PollRequest := do
  let p ← readParameters true r
  let type ← readType p.eventType
  let subject := match type with
    | some t => Subject.forType t (some c.id)
    | none => .user c.id
  if subject.isAdmin ∧ ¬ c.isAdmin then throw (deny .notAdmin)
  return { subject, type, lastEventId := p.lastEventId, longPoll := p.longPoll }

def subjectPoll (subject : Subject) (r : Request) : Except ErrorReply PollRequest := do
  let p ← readParameters false r
  return { subject, lastEventId := p.lastEventId, longPoll := p.longPoll }

def Api.pollOf (api : Api) (wall : Score) (r : Request) : Route → Except ErrorReply PollRequest
  | .pollUserEvents => do
    let c ← (Access.caller api.access wall r).mapError deny
    subjectPoll (.user c.id) r
  | .pollAdminEvents => do
    let _ ← (Access.adminCaller api.access wall r).mapError deny
    subjectPoll .admin r
  | _ => do
    let c ← (Access.caller api.access wall r).mapError deny
    eventsPoll c r

/-! ## Publishes -/

def maxBody : Nat := 2097152

/-- The record at the start of a JSON body; what follows it does not matter. -/
def bodyFields? (fields : List Json.Field) (r : Request) : Option Json.Fields := do
  let type ← r.headers.text? "content-type"
  if isJsonType type ∧ r.body.length ≤ maxBody then
    let t ← Json.readFirst? (Utf8.decode r.body)
    Json.fields? fields Json.maxNesting t
  else none

def badBody : ErrorReply := .badRequest "Invalid request body"

structure EventBody where
  eventType : String
  action : String
  entityId : String
  entityType : String
  userId : Option String
  metadata : Option Metadata

def EventBody.read? (r : Request) : Option EventBody := do
  let fs ← bodyFields? [⟨"eventType", false⟩, ⟨"action", false⟩, ⟨"entityId", false⟩,
    ⟨"entityType", false⟩, ⟨"userId", true⟩, ⟨"metadata", true⟩] r
  return {
    eventType := ← fs.required "eventType" Json.decodeText
    action := ← fs.required "action" Json.decodeText
    entityId := ← fs.required "entityId" Json.decodeText
    entityType := ← fs.required "entityType" Json.decodeText
    userId := ← fs.nullable "userId" Json.decodeText
    metadata := ← fs.nullable "metadata" Json.decodeMetadata }

def EventBody.request (b : EventBody) : Except ErrorReply PublishRequest :=
  match EventType.named? b.eventType, EventAction.named? b.action with
  | none, _ => .error (.badRequest "Invalid event type")
  | some _, none => .error (.badRequest "Invalid action")
  | some type, some action =>
    .ok (.event {
      type, action, entityId := b.entityId, entityType := b.entityType, userId := b.userId
      metadata := b.metadata.getD [] })

def texts? (names : List String) (r : Request) : Option (List String) := do
  let fs ← bodyFields? (names.map fun name => ⟨name, false⟩) r
  names.mapM fun name => fs.required name Json.decodeText

def orderUpdateBody? (r : Request) : Option PublishRequest := do
  let fs ← bodyFields? [⟨"orderId", false⟩, ⟨"updateType", false⟩, ⟨"details", true⟩] r
  let orderId ← fs.required "orderId" Json.decodeText
  let updateType ← fs.required "updateType" Json.decodeText
  let details ← fs.nullable "details" Json.decodeMetadata
  return .orderUpdate orderId updateType details

def publishOf (r : Request) : Route → Except ErrorReply PublishRequest
  | .publishOrderStatusChange =>
    match texts? ["orderId", "userId", "newStatus"] r with
    | some [orderId, userId, newStatus] => .ok (.orderStatusChange orderId userId newStatus)
    | _ => .error badBody
  | .publishNewOrder =>
    match texts? ["orderId", "customerName", "totalAmount"] r with
    | some [orderId, customerName, totalAmount] =>
      .ok (.newOrder orderId customerName totalAmount)
    | _ => .error badBody
  | .publishOrderUpdate =>
    match orderUpdateBody? r with
    | some request => .ok request
    | none => .error badBody
  | _ =>
    match EventBody.read? r with
    | some body => body.request
    | none => .error badBody

/-! ## Plans -/

def successMessage : Route → String
  | .pollUserEvents => "User events retrieved"
  | .pollAdminEvents => "Admin events retrieved"
  | .publishEvent => "Event published successfully"
  | .publishOrderStatusChange => "Order status change event published"
  | .publishNewOrder => "New order event published"
  | .publishOrderUpdate => "Order update event published"
  | _ => "Events retrieved"

/-- What a route makes of a request. A publish with a blank field is refused here, before anything
is done for it. -/
def Api.planOf (api : Api) (wall : Score) (r : Request) (route : Route) : Plan :=
  match route with
  | .health | .ping | .internalPing => .probe
  | .document => .document
  | .pollEvents | .pollUserEvents | .pollAdminEvents =>
    match api.pollOf wall r route with
    | .ok request => .poll request (successMessage route)
    | .error e => .respond e.response
  | _ =>
    match publishOf r route with
    | .error e => .respond e.response
    | .ok request =>
      match request.draft wall with
      | .error f => .respond (ErrorReply.ofFailure f "Failed to publish event").response
      | .ok draft => .publish draft (successMessage route)

def Api.plan (api : Api) (wall : Score) (r : Request) : Plan :=
  if r.method = "OPTIONS" then .respond (preflight api.crossOrigin)
  else match Route.find? api.pathStart r.uri.path with
    | none => .respond (.bare 404)
    | some route =>
      if route.takes r.method then api.planOf wall r route else .respond (.bare 405)

/-! ## Responses -/

/-- Adds what every response has, and the methods of a route that does not take the request's.
Without a `GET` there is no body to a `HEAD`. -/
def Api.finish (api : Api) (r : Request) (response : Response) : Response :=
  let shown := if r.method = "HEAD" then response.withoutBody else response
  let shown := match Route.find? api.pathStart r.uri.path with
    | some route => if route.takes r.method then shown else shown.addHeader "allow" route.allowed
    | none => shown
  { shown with
    headers := sharedHeaders api.crossOrigin (r.headers.first? "origin") ++ shown.headers }

def pollResponse (message : String) : Except Failure PollResponse → Response
  | .ok response => success message response.toJson
  | .error f => (ErrorReply.ofFailure f "Failed to retrieve events").response

def publishResponse (message : String) : Except Failure Delivery → Response
  | .ok delivery => success message delivery.toJson
  | .error f => (ErrorReply.ofFailure f "Failed to publish event").response

end NotificationQueue.Http
