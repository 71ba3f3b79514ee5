import NotificationQueue.Failure
import NotificationQueue.Json.Record
import NotificationQueue.Time.Timestamp
import NotificationQueue.Uuid

/-!
Events: what a notification says, about which entity, and since when. An event's timestamp, to the
microsecond, is its place in a queue.
-/
namespace NotificationQueue

/-! ## Types and actions -/

inductive EventType where
  | customerOrderStatus
  | adminNewOrder
  | adminOrderUpdate
  | inventoryUpdate
  | paymentStatus
  | systemNotification
  deriving DecidableEq, Inhabited

inductive EventAction where
  | refresh
  | fetchNew
  | updatePartial
  | remove
  | noAction
  deriving DecidableEq, Inhabited

namespace EventType

def all : List EventType :=
  [.customerOrderStatus, .adminNewOrder, .adminOrderUpdate, .inventoryUpdate, .paymentStatus,
    .systemNotification]

def name : EventType → String
  | .customerOrderStatus => "CUSTOMER_ORDER_STATUS"
  | .adminNewOrder => "ADMIN_NEW_ORDER"
  | .adminOrderUpdate => "ADMIN_ORDER_UPDATE"
  | .inventoryUpdate => "INVENTORY_UPDATE"
  | .paymentStatus => "PAYMENT_STATUS"
  | .systemNotification => "SYSTEM_NOTIFICATION"

def named? (s : String) : Option EventType :=
  all.find? (·.name = s)

def parse (s : String) : Except Failure EventType :=
  match named? s with
  | some t => .ok t
  | none => .error (.invalidInput ("unknown event type: " ++ s))

theorem named?_name (t : EventType) : named? t.name = some t := by
  cases t <;> decide

end EventType

namespace EventAction

def all : List EventAction :=
  [.refresh, .fetchNew, .updatePartial, .remove, .noAction]

def name : EventAction → String
  | .refresh => "REFRESH"
  | .fetchNew => "FETCH_NEW"
  | .updatePartial => "UPDATE_PARTIAL"
  | .remove => "REMOVE"
  | .noAction => "NO_ACTION"

def named? (s : String) : Option EventAction :=
  all.find? (·.name = s)

def parse (s : String) : Except Failure EventAction :=
  match named? s with
  | some a => .ok a
  | none => .error (.invalidInput ("unknown event action: " ++ s))

theorem named?_name (a : EventAction) : named? a.name = some a := by
  cases a <;> decide

end EventAction

/-! ## Events -/

def orderEntity : String := "ORDER"

structure Event where
  id : Uuid
  type : EventType
  action : EventAction
  entityId : String
  entityType : String
  metadata : Metadata
  timestamp : Timestamp
  /-- Retention in seconds. -/
  ttl : Nat
  deriving Inhabited

namespace Event

def score (e : Event) : Score :=
  e.timestamp.score

def toJson (e : Event) : Json :=
  .obj [("eventId", .str e.id.write), ("eventType", .str e.type.name),
    ("action", .str e.action.name), ("entityId", .str e.entityId),
    ("entityType", .str e.entityType), ("metadata", .obj e.metadata),
    ("timestamp", .str e.timestamp.write), ("ttl", .int e.ttl)]

def decodeType : Json.Decode EventType :=
  Json.decodeName EventType.named?

def decodeAction : Json.Decode EventAction :=
  Json.decodeName EventAction.named?

def fields : List Json.Field :=
  [⟨"eventId", false⟩, ⟨"eventType", false⟩, ⟨"action", false⟩, ⟨"entityId", false⟩,
    ⟨"entityType", false⟩, ⟨"metadata", true⟩, ⟨"timestamp", false⟩, ⟨"ttl", false⟩]

def decode : Json.Decode Event := fun room t => do
  let fs ← Json.fields? fields room t
  let id ← (← fs.required "eventId" Json.decodeText) |> Uuid.read?
  let type ← fs.required "eventType" decodeType
  let action ← fs.required "action" decodeAction
  let entityId ← fs.required "entityId" Json.decodeText
  let entityType ← fs.required "entityType" Json.decodeText
  let metadata ← fs.orElse "metadata" [] Json.decodeMetadata
  let timestamp ← (← fs.required "timestamp" Json.decodeText) |> Timestamp.read?
  let ttl ← fs.required "ttl" Json.decodeWord
  return { id, type, action, entityId, entityType, metadata, timestamp, ttl }

end Event

end NotificationQueue
