import NotificationQueue.Event
import NotificationQueue.Http.Envelope
import NotificationQueue.Http.Route
import NotificationQueue.Http.Schema
import NotificationQueue.Publish

/-!
The description of the interface for tools, in the form of OpenAPI 3.1: its routes with their
parameters, bodies and responses, and the schemas of what goes in and out.
-/
namespace NotificationQueue.Http

/-! ## Schemas -/

def successSchema (data : String) : String × Schema :=
  ("ApiResponse_" ++ data,
    .record (some "Successful response wrapper")
      [{ name := "success", form := .flag }, { name := "message", form := .text },
        { name := "data", form := .named data, required := false, nullable := true }])

def eventSchemas : List (String × Schema) :=
  [("Event", .record (some "A published notification")
      [{ name := "eventId", form := .id
         about := some "Unique id, also the client's resumption cursor" },
        { name := "eventType", form := .named "EventType" },
        { name := "action", form := .named "EventAction" },
        { name := "entityId", form := .text
          about := some "Identifier of the affected domain object" },
        { name := "entityType", form := .text
          about := some "Kind of the affected domain object (e.g. \"ORDER\")" },
        { name := "metadata", form := .object, required := false
          about := some "Type-specific payload" },
        { name := "timestamp", form := .instant
          about := some "Assignment time; also the ordering key" },
        { name := "ttl", form := .count, about := some "Retention in seconds" }]),
    ("EventType", .choice "Kind of notification" (EventType.all.map EventType.name)),
    ("EventAction", .choice "Client-side effect hint" (EventAction.all.map EventAction.name)),
    ("PollResponse", .record (some "Poll result returned to clients")
      [{ name := "events", form := .list "Event" },
        { name := "lastEventId", form := .text
          about := some "Cursor for the next poll; empty when the client has none yet" },
        { name := "pollInterval", form := .count
          about := some "Suggested delay before the next poll, in milliseconds" },
        { name := "hasMore", form := .flag }])]

def publishSchemas : List (String × Schema) :=
  [("PublishEventBody", .record (some "Body of the generic publish route")
      [{ name := "eventType", form := .text
         about := some "One of the known event types, e.g. \"CUSTOMER_ORDER_STATUS\"" },
        { name := "action", form := .text
          about := some "One of the known actions, e.g. \"REFRESH\"" },
        { name := "entityId", form := .text }, { name := "entityType", form := .text },
        { name := "userId", form := .text, required := false, nullable := true
          about := some "Recipient user; the admin queue when absent" },
        { name := "metadata", form := .object, required := false, nullable := true }]),
    ("OrderStatusChangeBody", .record none
      [{ name := "orderId", form := .text }, { name := "userId", form := .text },
        { name := "newStatus", form := .text }]),
    ("NewOrderBody", .record none
      [{ name := "orderId", form := .text }, { name := "customerName", form := .text },
        { name := "totalAmount", form := .text
          about := some "Decimal amount as a string, e.g. \"149.90\"" }]),
    ("OrderUpdateBody", .record none
      [{ name := "orderId", form := .text }, { name := "updateType", form := .text },
        { name := "details", form := .object, required := false, nullable := true }]),
    ("PublishAck", .record (some "Publish acknowledgement")
      [{ name := "delivery", form := .named "Delivery" }]),
    ("Delivery",
      .choice "How the event was handed to the store" (Delivery.all.map Delivery.name))]

def reportSchemas : List (String × Schema) :=
  [("ErrorResponse", .record (some "Error response body")
      [{ name := "success", form := .flag }, { name := "message", form := .text },
        { name := "error", form := .object, required := false, nullable := true
          about := some "Optional structured details" }]),
    ("HealthStatus", .record (some "Health report")
      [{ name := "service", form := .text }, { name := "status", form := .text },
        { name := "version", form := .text },
        { name := "dependencies", form := .named "HealthDependencies" }]),
    ("HealthDependencies", .record (some "Connectivity of the service's dependencies")
      [{ name := "store", form := .text
         about := some "\"connected\" or \"disconnected\"" }])]

def schemas : List (String × Schema) :=
  eventSchemas ++ publishSchemas ++ reportSchemas ++
    ["PollResponse", "PublishAck", "HealthStatus"].map successSchema

/-! ## Operations -/

structure Operation where
  id : String
  tag : String
  summary : String
  parameters : List Property := []
  body : Option String := none
  /-- Statuses, each with what it means and the schema of its body. -/
  responses : List (Nat × String × String)
  /-- Callers need a token. -/
  secured : Bool := false

namespace Operation

def content (schema : String) : Json :=
  .obj [("application/json", .obj [("schema", Form.reference schema)])]

def parameter (p : Property) : Json :=
  Json.record [("name", some (.str p.name)), ("in", some (.str "query")),
    ("description", p.about.map .str), ("required", some (.bool p.required)),
    ("schema", some (.obj (p.form.members p.nullable)))]

def toJson (o : Operation) : Json :=
  Json.record [("tags", some (.arr [.str o.tag])), ("summary", some (.str o.summary)),
    ("operationId", some (.str o.id)),
    ("parameters",
      if o.parameters = [] then none else some (.arr (o.parameters.map parameter))),
    ("requestBody",
      o.body.map fun schema => .obj [("content", content schema), ("required", .bool true)]),
    ("responses", some (.obj (o.responses.map fun (status, about, schema) =>
      (String.ofList (Text.decimal status),
        .obj [("description", .str about), ("content", content schema)])))),
    ("security", if o.secured then some (.arr [.obj [("bearer_auth", .arr [])]]) else none)]

end Operation

def cursorParameters : List Property :=
  [{ name := "lastEventId", form := .text, required := false
     about := some "Last event id the client has seen" },
    { name := "longPoll", form := .flag, required := false
      about := some "Block until events arrive or the long-poll timeout passes" }]

def pollOperation (id summary : String) (parameters : List Property) (success : String)
    (refusals : List (Nat × String)) : Operation where
  id
  tag := "polling"
  summary
  parameters
  responses := (200, success, "ApiResponse_PollResponse") ::
    refusals.map (fun (status, about) => (status, about, "ErrorResponse")) ++
    [(500, "Store failure", "ErrorResponse")]
  secured := true

def publishOperation (id summary body refusal : String) : Operation where
  id
  tag := "publish"
  summary
  body := some body
  responses := [(200, "Event published", "ApiResponse_PublishAck"),
    (400, refusal, "ErrorResponse"), (500, "Store failure", "ErrorResponse")]

/-- What is told of each route; nothing is of the other names of one. -/
def operation? : Route → Option Operation
  | .health => some {
      id := "health"
      tag := "health"
      summary :=
        "GET /health - Probe the store (also served at /v1/ping and /v1/internal/ping)"
      responses := [(200, "Service healthy", "ApiResponse_HealthStatus"),
        (503, "Store unreachable", "ErrorResponse")] }
  | .pollEvents => some <| pollOperation "poll_events"
      "GET /v1/polling/events - Poll the caller's events, optionally filtered by type"
      ({ name := "eventType", form := .text, required := false
         about := some "Only return events of this type" } :: cursorParameters)
      "Events retrieved"
      [(400, "Invalid parameters or event type"), (401, "Missing or invalid token"),
        (403, "Filter requires admin role")]
  | .pollUserEvents => some <| pollOperation "poll_user_events"
      "GET /v1/polling/user/events - Poll the caller's own queue" cursorParameters
      "User events retrieved" [(401, "Missing or invalid token")]
  | .pollAdminEvents => some <| pollOperation "poll_admin_events"
      "GET /v1/polling/admin/events - Poll the shared admin queue" cursorParameters
      "Admin events retrieved" [(401, "Missing or invalid token"), (403, "Admin role required")]
  | .publishEvent => some <| publishOperation "publish_event"
      "POST /v1/internal/events/publish - Publish an arbitrary event"
      "PublishEventBody" "Invalid body, event type or action"
  | .publishOrderStatusChange => some <| publishOperation "publish_order_status_change"
      "POST /v1/internal/events/order-status-change - Notify a customer of an order status change"
      "OrderStatusChangeBody" "Invalid body"
  | .publishNewOrder => some <| publishOperation "publish_new_order"
      "POST /v1/internal/events/new-order - Notify admins of a new order"
      "NewOrderBody" "Invalid body"
  | .publishOrderUpdate => some <| publishOperation "publish_order_update"
      "POST /v1/internal/events/order-update - Notify admins of an order update"
      "OrderUpdateBody" "Invalid body"
  | .ping | .internalPing | .document => none

/-! ## The whole -/

def tag (name about : String) : Json :=
  .obj [("name", .str name), ("description", .str about)]

def about : Json :=
  .obj [("title", .str "Pulse API"),
    ("description",
      .str "Per-user and admin notification queues served over short and long polling"),
    ("contact", .obj [("name", .str "Pulse Contributors")]),
    ("license", .obj [("name", .str "MIT"), ("identifier", .str "MIT")]),
    ("version", .str "0.1.0")]

def paths : List (String × Json) :=
  Route.all.filterMap fun r => (operation? r).map fun o =>
    (r.path, .obj [(if r.isPublish then "post" else "get", o.toJson)])

def document : Json :=
  .obj [("openapi", .str "3.1.0"), ("info", about), ("paths", .obj paths),
    ("components", .obj [
      ("schemas", .obj (schemas.map fun (name, s) => (name, s.toJson))),
      ("securitySchemes", .obj [("bearer_auth", .obj [("type", .str "http"),
        ("scheme", .str "bearer"), ("bearerFormat", .str "JWT")])])]),
    ("tags", .arr [tag "polling" "Event polling endpoints",
      tag "publish" "Internal event publishing endpoints",
      tag "health" "Health and liveness endpoints"])]

end NotificationQueue.Http
