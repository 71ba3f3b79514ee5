import NotificationQueue.Clock
import NotificationQueue.Event

/-!
The event store: one queue a key, ordered by score and then by insertion. A queue has a deadline,
which each insertion sets anew; past it the queue reads as empty, and the next insertion or a purge
drops what it held.
-/
namespace NotificationQueue

/-! ## Deadlines -/

/-- A reading of the wall clock in nanoseconds since the epoch. -/
abbrev Instant := Int

namespace Instant

def ofScore (s : Score) : Instant := s * 1000

def latest : Instant := Timestamp.latestSecond * 1000000000 + 999999999

/-- The longest span that can be added to an instant, in seconds. -/
def maxSpan : Nat := Text.maxSigned64 / 1000

/-- The instant a number of seconds later; the latest where that cannot be told. -/
def plusSeconds (t : Instant) (seconds : Nat) : Instant :=
  if seconds ≤ maxSpan then
    let sum := t + seconds * 1000000000
    if sum ≤ latest then sum else latest
  else latest

end Instant

/-- The score below which entries are older than a retention, at a reading of the wall clock. -/
def cutoff (wall : Score) (retention : Duration) : Score :=
  Score.back wall retention.micros

/-! ## Queues -/

structure Entry where
  score : Score
  sequence : Nat
  event : Event
  deriving Inhabited

def Entry.isBefore (a b : Entry) : Bool :=
  a.score < b.score || (a.score = b.score && a.sequence ≤ b.sequence)

structure Queue where
  entries : List Entry
  deadline : Instant
  deriving Inhabited

namespace Queue

def isExpired (q : Queue) (now : Instant) : Bool :=
  q.deadline ≤ now

def insertEntry (e : Entry) : List Entry → List Entry
  | [] => [e]
  | a :: rest => if a.isBefore e then a :: insertEntry e rest else e :: a :: rest

def range (q : Queue) (least greatest : Score) (limit : Nat) : List Event :=
  ((q.entries.filter fun e => least ≤ e.score && e.score ≤ greatest).take limit).map Entry.event

def find? (q : Queue) (id : Uuid) : Option Event :=
  (q.entries.find? fun e => e.event.id = id).map Entry.event

end Queue

/-! ## Store -/

structure Store where
  queues : List (String × Queue) := []
  nextSequence : Nat := 0
  deriving Inhabited

namespace Store

def queue? (s : Store) (key : String) : Option Queue :=
  (s.queues.find? (·.1 = key)).map Prod.snd

/-- The queue of a key, unless its deadline has come. -/
def live? (s : Store) (key : String) (wall : Score) : Option Queue :=
  (s.queue? key).filter fun q => ! q.isExpired (Instant.ofScore wall)

def put (key : String) (q : Queue) : List (String × Queue) → List (String × Queue)
  | [] => [(key, q)]
  | (k, r) :: rest => if k = key then (k, q) :: rest else (k, r) :: put key q rest

def setQueue (s : Store) (key : String) (q : Queue) : Store :=
  { s with queues := put key q s.queues }

/-- Inserts an event at a score. The event's retention sets the queue's deadline anew, and a queue
past its deadline loses what it held. -/
def append (s : Store) (key : String) (score : Score) (event : Event) (wall : Score) : Store :=
  let now := Instant.ofScore wall
  let old := match s.queue? key with
    | none => []
    | some q => if q.isExpired now then [] else q.entries
  { s.setQueue key
      { entries := Queue.insertEntry ⟨score, s.nextSequence, event⟩ old
        deadline := now.plusSeconds event.ttl } with
    nextSequence := s.nextSequence + 1 }

def range (s : Store) (key : String) (least : Option Score) (greatest : Score) (limit : Nat)
    (wall : Score) : List Event :=
  match s.live? key wall with
  | none => []
  | some q => q.range (least.getD Score.least) greatest limit

/-- Drops the oldest entries of a queue of more than twice `keep`, until `keep` are left, and tells
how many were dropped. A queue past its deadline is trimmed all the same. -/
def trim (s : Store) (key : String) (keep : Nat) : Nat × Store :=
  match s.queue? key with
  | none => (0, s)
  | some q =>
    let excess := q.entries.length - keep
    if q.entries.length ≤ min (2 * keep) Text.maxWord64 then (0, s)
    else (excess, s.setQueue key { q with entries := q.entries.drop excess })

def find? (s : Store) (key : String) (id : Uuid) (wall : Score) : Option Event :=
  (s.live? key wall).bind (·.find? id)

def expire (s : Store) (key : String) (retention : Duration) (wall : Score) : Nat × Store :=
  match s.queue? key with
  | none => (0, s)
  | some q =>
    let kept := q.entries.filter fun e => cutoff wall retention ≤ e.score
    (q.entries.length - kept.length, s.setQueue key { q with entries := kept })

def size (s : Store) (key : String) (wall : Score) : Nat :=
  match s.live? key wall with
  | none => 0
  | some q => q.entries.length

def purge (s : Store) (wall : Score) : Nat × Store :=
  let kept := s.queues.filter fun (_, q) => ! q.isExpired (Instant.ofScore wall)
  (s.queues.length - kept.length, { s with queues := kept })

def clear (s : Store) : Store :=
  { s with queues := [] }

def liveCount (s : Store) (wall : Score) : Nat :=
  (s.queues.filter fun (_, q) => ! q.isExpired (Instant.ofScore wall)).length

def storedCount (s : Store) : Nat :=
  s.queues.length

end Store

end NotificationQueue
