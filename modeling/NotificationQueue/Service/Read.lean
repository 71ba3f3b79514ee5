import NotificationQueue.Poll
import NotificationQueue.Store

/-!
One read of a queue, in the steps between which others may act: finding the event behind the cursor,
looking at the clock's horizon, and reading a range of scores. A cursor that is no id, or the id of
no live event, reads from the start of the queue.
-/
namespace NotificationQueue

/-- What the store makes of a call: it may not have answered yet. -/
inductive Answer where
  | waiting
  | done
  | failed (fault : StoreFault)
  deriving DecidableEq, Inhabited

inductive ReadPhase where
  | locating (id : Uuid)
  | bounding (least : Option Score)
  | ranging (least : Option Score) (greatest : Score)
  | finished (result : Except Failure Batch)
  deriving Inhabited

namespace Query

/-- How many more events than asked for are read where a type is asked for. -/
def overfetch : Nat := 2

def start (q : Query) : ReadPhase :=
  match (cursorOf q.cursor).bind Uuid.read? with
  | some id => .locating id
  | none => .bounding none

def fetchLimit (q : Query) : Nat :=
  match q.type with
  | none => q.limit
  | some _ => min (overfetch * q.limit) Text.maxWord64

def select (q : Query) (events : List Event) : List Event :=
  match q.type with
  | none => events
  | some t => (events.filter (·.type = t)).take q.limit

def batch (q : Query) (events : List Event) : Batch :=
  .ofEvents (q.select events) (cursorOf q.cursor) q.limit

end Query

namespace ReadPhase

def result? : ReadPhase → Option (Except Failure Batch)
  | .finished r => some r
  | _ => none

def step (q : Query) (store : Store) (clock : Clock) (wall : Score) (a : Answer) :
    ReadPhase → ReadPhase
  | .locating id =>
    match a with
    | .waiting => .locating id
    | .failed f => .finished (.error (.store f))
    | .done =>
      .bounding ((store.find? q.subject.key id wall).map fun e => Score.succ e.score)
  | .bounding least => .ranging least (clock.horizon wall)
  | .ranging least greatest =>
    match a with
    | .waiting => .ranging least greatest
    | .failed f => .finished (.error (.store f))
    | .done =>
      .finished (.ok (q.batch (store.range q.subject.key least greatest q.fetchLimit wall)))
  | .finished r => .finished r

end ReadPhase

end NotificationQueue
