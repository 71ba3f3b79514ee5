import NotificationQueue.LongPoll
import NotificationQueue.Publish
import NotificationQueue.Service.Read

/-!
What a service has under way. Every task is a small machine whose steps are the points at which
others may act: each step makes at most one call of the store.
-/
namespace NotificationQueue

/-! ## Writes -/

/-- Where a write stands. The reservation of its score ends once the store has answered, and its
slot is given back at the very end. -/
inductive WritePhase where
  | appending
  | releasing (result : Except StoreFault Unit)
  | trimming
  | ending (result : Except StoreFault Unit)
  | finished (result : Except StoreFault Unit)

/-- A write of an event to the queue of a key. A background write holds a slot. -/
structure Write where
  key : String
  event : Event
  score : Score
  background : Bool
  phase : WritePhase := .appending

/-! ## Polls -/

structure Read where
  query : Query
  phase : ReadPhase

structure Ticker where
  query : Query
  /-- Nanoseconds of the timer. -/
  deadline : Nat
  loop : LongPoll.Loop := .starting
  read : ReadPhase

structure Waiter where
  query : Query
  ticker : Nat
  cancelled : Bool := false
  result : Option (Except Failure WaitOutcome) := none

/-! ## Probes, drains and purges -/

structure Probe where
  deadline : Nat
  result : Option (Except Failure Unit) := none

structure Drain where
  deadline : Nat
  result : Option (Except Failure Unit) := none

inductive PurgePhase where
  | starting
  | waiting (due : Nat)
  | purging (next : Nat)
  | stopped
  | crashed
  deriving DecidableEq

structure Purger where
  interval : Duration
  cancelled : Bool := false
  phase : PurgePhase := .starting

/-! ## Tasks -/

inductive Task where
  | write (w : Write)
  | read (r : Read)
  | sweep (key : String) (finished : Bool)
  | ticker (t : Ticker)
  | waiter (w : Waiter)
  | probe (p : Probe)
  | drain (d : Drain)
  | purger (p : Purger)
  /-- A task whose caller has left it. -/
  | gone

/-- A call of the store, with what tells one append from another. -/
inductive StoreCall where
  | append (entityId : String) (id : Uuid)
  | range
  | trim
  | find
  | expire
  | ping
  | purge
  deriving DecidableEq

def ReadPhase.call? : ReadPhase → Option StoreCall
  | .locating _ => some .find
  | .ranging _ _ => some .range
  | _ => none

namespace Task

def call? : Task → Option StoreCall
  | .write w =>
    match w.phase with
    | .appending => some (.append w.event.entityId w.event.id)
    | .trimming => some .trim
    | _ => none
  | .read r => r.phase.call?
  | .sweep _ finished => if finished then none else some .expire
  | .ticker t =>
    match t.loop with
    | .fetching _ => t.read.call?
    | _ => none
  | .probe p => if p.result.isSome then none else some .ping
  | .purger p =>
    match p.phase with
    | .purging _ => some .purge
    | _ => none
  | .waiter _ | .drain _ | .gone => none

def isFinished : Task → Bool
  | .write w =>
    match w.phase with
    | .finished _ => true
    | _ => false
  | .read r => r.phase.result?.isSome
  | .sweep _ finished => finished
  | .ticker t => t.loop.result?.isSome
  | .waiter w => w.result.isSome
  | .probe p => p.result.isSome
  | .drain d => d.result.isSome
  | .purger p => p.phase = .stopped || p.phase = .crashed
  | .gone => true

def wake? : Task → Option Nat
  | .ticker t =>
    match t.loop with
    | .waiting due => some (LongPoll.wake due)
    | _ => none
  | .probe p => if p.result.isSome then none else some (LongPoll.wake p.deadline)
  | .drain d => if d.result.isSome then none else some (LongPoll.wake d.deadline)
  | .purger p =>
    match p.phase with
    | .waiting due => some (LongPoll.wake due)
    | _ => none
  | _ => none

def isOpenBackgroundWrite : Task → Bool
  | .write w => w.background && !(Task.write w).isFinished
  | _ => false

end Task

end NotificationQueue
