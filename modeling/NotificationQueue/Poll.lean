import NotificationQueue.Settings.Queue
import NotificationQueue.Subject

/-!
Polls. A client names the last event it has seen; a poll gives the events after it, up to a page,
and the cursor for the next poll. An empty page leaves the client's cursor as it was.
-/
namespace NotificationQueue

structure PollRequest where
  subject : Subject
  type : Option EventType := none
  lastEventId : Option String := none
  longPoll : Bool := false
  deriving DecidableEq, Inhabited

structure Query where
  subject : Subject
  type : Option EventType := none
  cursor : Option String := none
  limit : Nat
  deriving DecidableEq, Inhabited

/-- The cursor of a client; an empty text is none. -/
def cursorOf (text : Option String) : Option String :=
  text.filter (· ≠ "")

def PollRequest.query (r : PollRequest) (settings : QueueSettings) : Query where
  subject := r.subject
  type := r.type
  cursor := cursorOf r.lastEventId
  limit := settings.pageSize

structure Batch where
  events : List Event
  nextCursor : Option String
  hasMore : Bool
  deriving Inhabited

namespace Batch

def empty (cursor : Option String) : Batch := ⟨[], cursor, false⟩

/-- The batch of the events read. The cursor moves to the last of them, and a full page tells that
there may be more. -/
def ofEvents (events : List Event) (cursor : Option String) (limit : Nat) : Batch where
  events
  nextCursor := (events.getLast?.map (·.id.write)).or cursor
  hasMore := 0 < limit && events.length = limit

def isEmpty (b : Batch) : Bool := b.events.isEmpty

end Batch

structure PollResponse where
  events : List Event
  lastEventId : String
  /-- Milliseconds that the client should wait before its next poll. -/
  pollInterval : Nat
  hasMore : Bool
  deriving Inhabited

namespace PollResponse

def ofBatch (settings : QueueSettings) (b : Batch) (longPoll : Bool) : PollResponse where
  events := b.events
  lastEventId := b.nextCursor.getD ""
  pollInterval :=
    (if longPoll then settings.longPollInterval else settings.shortPollInterval).millis %
      (Text.maxWord64 + 1)
  hasMore := b.hasMore

def toJson (r : PollResponse) : Json :=
  .obj [("events", .arr (r.events.map Event.toJson)), ("lastEventId", .str r.lastEventId),
    ("pollInterval", .int r.pollInterval), ("hasMore", .bool r.hasMore)]

def fields : List Json.Field :=
  [⟨"events", false⟩, ⟨"lastEventId", false⟩, ⟨"pollInterval", false⟩, ⟨"hasMore", false⟩]

def decode : Json.Decode PollResponse := fun room t => do
  let fs ← Json.fields? fields room t
  return {
    events := ← fs.required "events" (Json.decodeList Event.decode)
    lastEventId := ← fs.required "lastEventId" Json.decodeText
    pollInterval := ← fs.required "pollInterval" Json.decodeWord
    hasMore := ← fs.required "hasMore" Json.decodeBool }

end PollResponse

end NotificationQueue
