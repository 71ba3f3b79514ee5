import NotificationQueue.Http.Exchange
import NotificationQueue.Simulation.Basic

/-!
The moves of a script: publishing, polling, exchanges over HTTP and the like, each either carried
through at once or started under a name and looked at later.
-/
namespace NotificationQueue

/-! ## Work -/

inductive Work where
  | poll (task : Nat)
  | exchange (api : Http.Api) (request : Http.Request) (e : Http.Exchange)
  | purge (task : Nat)
  | broken

inductive WorkResult where
  | poll (r : Except Failure PollResponse)
  | response (r : Http.Response)
  | stopped
  | broken

namespace Work

def task? : Work → Option Nat
  | .poll id | .purge id => some id
  | .exchange _ _ e => e.task?
  | .broken => none

def result? (s : Service) : Work → Option WorkResult
  | .poll id => (s.pollResult? id).map .poll
  | .exchange api request e => (e.response? api s request).map .response
  | .purge id =>
    match s.tasks[id]? with
    | some (.purger p) =>
      match p.phase with
      | .stopped => some .stopped
      | .crashed => some .broken
      | _ => none
    | _ => none
  | .broken => some .broken

end Work

structure Spawned where
  work : Work
  start : Nat
  aborted : Bool := false

inductive Joined where
  | unknown
  | aborted
  | ended (r : WorkResult) (time : Nat)

/-- A simulation with the work that the script has under names, and the scores that it holds. -/
structure Script where
  simulation : Simulation
  spawned : List (String × Spawned) := []
  reservations : List (String × Score) := []

namespace Script

/-! ## Steps -/

def modify (s : Script) (f : Simulation → Simulation) : Script :=
  { s with simulation := f s.simulation }

/-- Changes the service, and takes note of the tasks that have begun. -/
def modifyService (s : Script) (f : Service → Service) : Script :=
  s.modify fun m => { m with service := f m.service }.refresh m.service.tasks.size

def modifyStore (s : Script) (f : Store → Store) : Script :=
  s.modifyService fun v => { v with store := f v.store }

def service (s : Script) : Service := s.simulation.service

def awaitTask (s : Script) (id : Nat) : Script :=
  s.modify (·.await (.task id) Simulation.patience)

def sleep (s : Script) (millis : Nat) : Script :=
  s.modify fun m => m.await (.time (m.service.now + millis)) Simulation.patience

def settle (s : Script) : Script :=
  s.modify (·.settle Simulation.patience)

/-! ## The second reader -/

def nextTimestamp (s : Script) : Script × Timestamp :=
  let (t, peer) := s.simulation.peer.next s.service.wall
  (s.modify ({ · with peer }), t)

def release (s : Script) (name : String) : Script × Bool :=
  match s.reservations.find? (·.1 = name) with
  | none => (s, false)
  | some (_, score) =>
    ({ s.modify (fun m => { m with peer := m.peer.release score }) with
      reservations := s.reservations.filter (·.1 ≠ name) }, true)

/-- The second reader's clock reserves a score and keeps it under a name; an earlier one of that
name is given up after. -/
def reserve (s : Script) (name : String) : Script × Score :=
  let (score, peer) := s.simulation.peer.reserve s.service.wall
  let (s, _) := (s.modify ({ · with peer })).release name
  ({ s with reservations := (name, score) :: s.reservations }, score)

def resolve (s : Script) (q : Query) : Script × Option (Except Failure Batch) :=
  let s := s.modify fun m =>
    { m with peerRead := some (q, q.start) }.await .peer Simulation.patience
  (s, s.simulation.peerRead.bind (·.2.result?))

/-! ## Publishing, probing and shutting down -/

/-- Publishes an event, and tells how it was carried out and how many slots are taken after. -/
def publish (s : Script) (r : PublishRequest) : Script × Option (Except Failure (Delivery × Nat)) :=
  match s.service.publish r with
  | .error f => (s, some (.error f))
  | .ok (service, publication) =>
    let s := s.modifyService fun _ => service
    let s := match publication.delivery with
      | .dispatched => s
      | .written => s.awaitTask publication.task
    (s, (s.service.publishResult? publication).map (·.map (·, s.service.slots.inFlight)))

def probe (s : Script) : Script × Option (Except Failure Unit) :=
  let id := s.service.tasks.size
  let s := (s.modifyService (·.probe.1)).awaitTask id
  (s, s.service.outcome? id)

def shutdown (s : Script) : Script × Option (Except Failure Unit) :=
  let id := s.service.tasks.size
  let s := (s.modifyService (·.shutdown.1)).awaitTask id
  (s, s.service.outcome? id)

/-! ## Work -/

def startPoll (s : Script) (r : PollRequest) (cancelled : Bool) : Script × Work :=
  match s.service.poll? r cancelled with
  | none => (s, .broken)
  | some (service, id) => (s.modifyService fun _ => service, .poll id)

def startExchange (s : Script) (api : Http.Api) (r : Http.Request) : Script × Work :=
  match Http.Exchange.start? api s.service r with
  | none => (s, .broken)
  | some (service, e) => (s.modifyService fun _ => service, .exchange api r e)

def startPurge (s : Script) (interval : Duration) : Script × Work :=
  let id := s.service.tasks.size
  (s.modifyService (·.purgeEvery interval |>.1), .purge id)

def complete (s : Script) (w : Work) : Script × Option WorkResult :=
  let s := match w.task? with
    | none => s
    | some id => s.awaitTask id
  (s, w.result? s.service)

/-- Keeps work under a name, in place of earlier work of that name. -/
def keep (s : Script) (name : String) (w : Work) : Script :=
  { s with
    spawned := (name, { work := w, start := s.service.now }) :: s.spawned.filter (·.1 ≠ name) }

def spawned? (s : Script) (name : String) : Option Spawned :=
  (s.spawned.find? (·.1 = name)).map Prod.snd

def cancel (s : Script) (name : String) : Script :=
  match (s.spawned? name).map Spawned.work with
  | some (.poll id) | some (.purge id) => s.modifyService (·.cancel id)
  | _ => s

/-- Drops the work under a name, unless it has ended. -/
def abort (s : Script) (name : String) : Script :=
  match s.spawned? name with
  | none => s
  | some p =>
    match p.work.result? s.service, p.work.task? with
    | none, some id =>
      let s := s.modifyService (·.drop id)
      { s with
        spawned := s.spawned.map fun (k, q) =>
          if k = name then (k, { q with aborted := true }) else (k, q) }
    | _, _ => s

def isDone? (s : Script) (name : String) : Option Bool :=
  (s.spawned? name).map fun p => p.aborted || (p.work.result? s.service).isSome

def join (s : Script) (name : String) : Script × Joined :=
  match s.spawned? name with
  | none => (s, .unknown)
  | some p =>
    let s := { s with spawned := s.spawned.filter (·.1 ≠ name) }
    if p.aborted then (s, .aborted)
    else
      let (s, result) := s.complete p.work
      let time := match p.work.task? with
        | none => p.start
        | some id => ((s.simulation.ends.find? (·.1 = id)).map Prod.snd).getD p.start
      match result with
      | some r => (s, .ended r time)
      | none => (s, .unknown)

end Script

end NotificationQueue
