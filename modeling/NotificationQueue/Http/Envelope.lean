import NotificationQueue.Failure
import NotificationQueue.Http.Message
import NotificationQueue.Json.Record

/-!
The common form of response bodies: whether the request succeeded, a message, and then data or the
details of an error.
-/
namespace NotificationQueue.Http

/-! ## Errors -/

structure ErrorReply where
  status : Nat
  message : String
  details : Option Json := none
  deriving Inhabited

namespace ErrorReply

def badRequest (message : String) : ErrorReply := { status := 400, message }

/-- The status of a request whose caller left before the response. -/
def callerLeft : Nat := 499

/-- The error response to a failed request. What the caller did wrong is told; of any other failure
only the `context` is. -/
def ofFailure (f : Failure) (context : String) : ErrorReply :=
  match f with
  | .invalidInput reason => badRequest reason
  | .cancelled => { status := callerLeft, message := "Request cancelled" }
  | _ => { status := 500, message := context }

end ErrorReply

structure ErrorBody where
  success : Bool := false
  message : String
  error : Option Json := none
  deriving Inhabited

namespace ErrorBody

def toJson (b : ErrorBody) : Json :=
  Json.record [("success", some (.bool b.success)), ("message", some (.str b.message)),
    ("error", b.error)]

def fields : List Json.Field :=
  [⟨"success", false⟩, ⟨"message", false⟩, ⟨"error", false⟩]

def decode : Json.Decode ErrorBody := fun room t => do
  let fs ← Json.fields? fields room t
  return {
    success := ← fs.required "success" Json.decodeBool
    message := ← fs.required "message" Json.decodeText
    error := ← fs.nullable "error" Json.decodeValue }

end ErrorBody

def ErrorReply.response (e : ErrorReply) : Response :=
  .json e.status (ErrorBody.toJson { message := e.message, error := e.details })

/-! ## Success -/

def success (message : String) (data : Json) : Response :=
  .json 200 (.obj [("success", .bool true), ("message", .str message), ("data", data)])

/-! ## Health -/

structure HealthReport where
  service : String
  status : String
  version : String
  store : String
  deriving DecidableEq, Inhabited

namespace HealthReport

def ofProbe (healthy : Bool) : HealthReport where
  service := "pulse"
  status := if healthy then "healthy" else "unhealthy"
  version := "0.1.0"
  store := if healthy then "connected" else "disconnected"

def toJson (h : HealthReport) : Json :=
  .obj [("service", .str h.service), ("status", .str h.status), ("version", .str h.version),
    ("dependencies", .obj [("store", .str h.store)])]

def decodeStore : Json.Decode String := fun room t => do
  let fs ← Json.fields? [⟨"store", false⟩] room t
  fs.required "store" Json.decodeText

def decode : Json.Decode HealthReport := fun room t => do
  let fs ← Json.fields?
    [⟨"service", false⟩, ⟨"status", false⟩, ⟨"version", false⟩, ⟨"dependencies", false⟩] room t
  return {
    service := ← fs.required "service" Json.decodeText
    status := ← fs.required "status" Json.decodeText
    version := ← fs.required "version" Json.decodeText
    store := ← fs.required "dependencies" decodeStore }

end HealthReport

def healthResponse : Except Failure Unit → Response
  | .ok () => success "Pulse service is healthy" (HealthReport.ofProbe true).toJson
  | .error f =>
    ErrorReply.response {
      status := 503
      message := "Pulse service is unhealthy"
      details := some (.obj [("reason", .str f.message),
        ("health", (HealthReport.ofProbe false).toJson)]) }

end NotificationQueue.Http
