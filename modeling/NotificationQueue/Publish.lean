import NotificationQueue.Subject

/-!
Publishing: what publishers ask for, and the events that come of it. Orders have requests of their
own, which fix the type, the action and the payload; any other event is described in full. Fields
that name something may not be blank.
-/
namespace NotificationQueue

/-! ## Requests -/

/-- An event described in full. Without a user it goes to the administrators. -/
structure EventRequest where
  type : EventType
  action : EventAction
  entityId : String
  entityType : String
  userId : Option String := none
  metadata : Metadata := []
  deriving Inhabited

inductive PublishRequest where
  | event (request : EventRequest)
  | orderStatusChange (orderId userId newStatus : String)
  | newOrder (orderId customerName totalAmount : String)
  | orderUpdate (orderId updateType : String) (details : Option Metadata)

namespace EventRequest

def toJson (r : EventRequest) : Json :=
  Json.record [("eventType", some (.str r.type.name)), ("action", some (.str r.action.name)),
    ("entityId", some (.str r.entityId)), ("entityType", some (.str r.entityType)),
    ("userId", r.userId.map .str), ("metadata", some (.obj r.metadata))]

def fields : List Json.Field :=
  [⟨"eventType", false⟩, ⟨"action", false⟩, ⟨"entityId", false⟩, ⟨"entityType", false⟩,
    ⟨"userId", true⟩, ⟨"metadata", true⟩]

def decode : Json.Decode EventRequest := fun room t => do
  let fs ← Json.fields? fields room t
  return {
    type := ← fs.required "eventType" Event.decodeType
    action := ← fs.required "action" Event.decodeAction
    entityId := ← fs.required "entityId" Json.decodeText
    entityType := ← fs.required "entityType" Json.decodeText
    userId := ← fs.nullable "userId" Json.decodeText
    metadata := ← fs.orElse "metadata" [] Json.decodeMetadata }

end EventRequest

/-! ## Drafts -/

/-- An event without its id and its timestamp, and whose queue it goes to. -/
structure Draft where
  subject : Subject
  type : EventType
  action : EventAction
  entityId : String
  entityType : String
  metadata : Metadata
  deriving Inhabited

def requireText (field value : String) : Except Failure Unit :=
  if Text.isBlankText value then .error (.invalidInput (field ++ " is required")) else .ok ()

def Draft.order (subject : Subject) (type : EventType) (action : EventAction) (orderId : String)
    (metadata : Metadata) : Draft :=
  ⟨subject, type, action, orderId, orderEntity, metadata⟩

def PublishRequest.draft (wall : Score) : PublishRequest → Except Failure Draft
  | .event r => do
    requireText "entityId" r.entityId
    requireText "entityType" r.entityType
    return ⟨.forRecipient r.userId, r.type, r.action, r.entityId, r.entityType, r.metadata⟩
  | .orderStatusChange orderId userId newStatus => do
    requireText "orderId" orderId
    requireText "userId" userId
    return .order (.user userId) .customerOrderStatus .refresh orderId
      [("status", .str newStatus), ("orderId", .str orderId)]
  | .newOrder orderId customerName totalAmount => do
    requireText "orderId" orderId
    return .order .admin .adminNewOrder .fetchNew orderId
      [("orderId", .str orderId), ("customerName", .str customerName),
        ("totalAmount", .str totalAmount),
        ("timestamp", .str (Timestamp.ofMicros wall).writeSeconds)]
  | .orderUpdate orderId updateType details => do
    requireText "orderId" orderId
    return .order .admin .adminOrderUpdate .updatePartial orderId
      (Json.setMember "orderId" (.str orderId)
        (Json.setMember "updateType" (.str updateType) (details.getD [])))

def Draft.event (d : Draft) (id : Uuid) (score : Score) (ttl : Nat) : Event where
  id
  type := d.type
  action := d.action
  entityId := d.entityId
  entityType := d.entityType
  metadata := d.metadata
  timestamp := Timestamp.ofMicros score
  ttl

/-! ## Outcomes -/

inductive Delivery where
  | dispatched
  /-- The store has the event. -/
  | written
  deriving DecidableEq, Inhabited

namespace Delivery

def all : List Delivery := [.dispatched, .written]

def name : Delivery → String
  | .dispatched => "dispatched"
  | .written => "written"

def named? (s : String) : Option Delivery :=
  all.find? (·.name = s)

def toJson (d : Delivery) : Json :=
  .obj [("delivery", .str d.name)]

def decode : Json.Decode Delivery := fun room t => do
  let fs ← Json.fields? [⟨"delivery", false⟩] room t
  fs.required "delivery" (Json.decodeName named?)

end Delivery

end NotificationQueue
