import NotificationQueue.Service.Task
import NotificationQueue.Slots

/-!
The service: a store, a clock, slots for background writes, and the tasks under way. `advance` lets
one task take one step; which task goes next, what the store answers and when time passes are
choices of whoever runs the service.
-/
namespace NotificationQueue

structure Service where
  settings : QueueSettings
  /-- The ids of the events to come. -/
  ids : Nat → Uuid
  store : Store := {}
  clock : Clock := {}
  slots : Slots
  wall : Score
  /-- Milliseconds of the timer since the start. -/
  now : Nat := 0
  issued : Nat := 0
  tasks : Array Task := #[]

namespace Service

/-- A new service; there is none with more slots than a pool can have. -/
def start? (settings : QueueSettings) (ids : Nat → Uuid) (wall : Score) : Option Service :=
  (Slots.ofCapacity? settings.writeSlots).map fun slots => { settings, ids, slots, wall }

/-! ## Time -/

def elapse (s : Service) (millis : Nat) : Service :=
  { s with now := s.now + millis, wall := s.wall + millis * 1000 }

def skew (s : Service) (micros : Int) : Service :=
  { s with wall := s.wall + micros }

/-- The time of the timer in nanoseconds. -/
def time (s : Service) : Nat := s.now * Duration.perMilli

/-! ## Tasks -/

def spawn (s : Service) (t : Task) : Service :=
  { s with tasks := s.tasks.push t }

def setTask (s : Service) (id : Nat) (t : Task) : Service :=
  { s with tasks := s.tasks.setIfInBounds id t }

/-! ## Requests -/

/-- A publish under way: the task that writes it, and whether it does so in the background. -/
structure Publication where
  task : Nat
  delivery : Delivery
  deriving DecidableEq

/-- Stamps a draft and starts its write: in the background if a slot is free, and on the caller's
behalf otherwise. -/
def submit (s : Service) (d : Draft) : Service × Publication :=
  let (score, clock) := s.clock.reserve s.wall
  let event := d.event (s.ids s.issued) score s.settings.retention.seconds
  let stamped := { s with clock, issued := s.issued + 1 }
  match s.slots.acquire? with
  | some slots =>
    ({ stamped with slots }.spawn (.write ⟨d.subject.key, event, score, true, .appending⟩),
      ⟨s.tasks.size, .dispatched⟩)
  | none =>
    (stamped.spawn (.write ⟨d.subject.key, event, score, false, .appending⟩),
      ⟨s.tasks.size, .written⟩)

def publish (s : Service) (r : PublishRequest) : Except Failure (Service × Publication) :=
  (r.draft s.wall).map s.submit

/-- Starts a poll and tells its task; the token of a long poll may be cancelled already. There is no
long poll whose deadline the timer cannot tell. -/
def poll? (s : Service) (r : PollRequest) (cancelled : Bool) : Option (Service × Nat) :=
  let query := r.query s.settings
  if r.longPoll then
    (LongPoll.deadline? s.now s.settings.longPollTimeout).map fun deadline =>
      let id := s.tasks.size
      ((s.spawn (.waiter { query, ticker := id + 1, cancelled })).spawn
        (.ticker { query, deadline, read := query.start }), id)
  else some (s.spawn (.read ⟨query, query.start⟩), s.tasks.size)

def probe (s : Service) : Service × Nat :=
  (s.spawn (.probe { deadline := s.time + s.settings.healthCheckTimeout.nanoseconds }),
    s.tasks.size)

def shutdown (s : Service) : Service × Nat :=
  (({ s with slots := s.slots.close }).spawn
    (.drain { deadline := s.time + s.settings.shutdownTimeout.nanoseconds }), s.tasks.size)

def purgeEvery (s : Service) (interval : Duration) : Service × Nat :=
  (s.spawn (.purger { interval }), s.tasks.size)

def sweep (s : Service) (key : String) : Service :=
  s.spawn (.sweep key false)

def cancel (s : Service) (id : Nat) : Service :=
  match s.tasks[id]? with
  | some (.waiter w) => s.setTask id (.waiter { w with cancelled := true })
  | some (.purger p) => s.setTask id (.purger { p with cancelled := true })
  | _ => s

/-- The caller of a task leaves it. A background write has no caller; a long poll takes its loop
with it; a write whose append has not ended gives its score free. -/
def drop (s : Service) (id : Nat) : Service :=
  match s.tasks[id]? with
  | some (.write w) =>
    if w.background then s
    else
      match w.phase with
      | .appending | .releasing _ =>
        { s.setTask id .gone with clock := s.clock.release w.score }
      | _ => s.setTask id .gone
  | some (.waiter w) => (s.setTask w.ticker .gone).setTask id .gone
  | some _ => s.setTask id .gone
  | none => s

/-! ## Steps -/

def advanceWrite (s : Service) (id : Nat) (w : Write) (a : Answer) : Service :=
  let to_ (s : Service) (phase : WritePhase) : Service := s.setTask id (.write { w with phase })
  match w.phase with
  | .appending =>
    match a with
    | .waiting => s
    | .failed f => to_ s (.releasing (.error f))
    | .done =>
      to_ { s with store := s.store.append w.key w.score w.event s.wall } (.releasing (.ok ()))
  | .releasing result =>
    let s := { s with clock := s.clock.release w.score }
    match result with
    | .ok () => to_ s .trimming
    | .error f => to_ s (.ending (.error f))
  | .trimming =>
    match a with
    | .waiting => s
    | .failed _ => to_ s (.ending (.ok ()))
    | .done =>
      to_ { s with store := (s.store.trim w.key s.settings.pageSize).2 } (.ending (.ok ()))
  | .ending result =>
    let s := if w.background then { s with slots := s.slots.release } else s
    to_ s (.finished result)
  | .finished _ => s

def sweepAfter (s : Service) (query : Query) (phase : ReadPhase) : Service :=
  match phase with
  | .finished (.ok _) => s.sweep query.subject.key
  | _ => s

def advanceRead (s : Service) (id : Nat) (r : Read) (a : Answer) : Service :=
  match r.phase with
  | .finished _ => s
  | phase =>
    let phase := phase.step r.query s.store s.clock s.wall a
    (s.setTask id (.read { r with phase })).sweepAfter r.query phase

def yieldOf : Except Failure Batch → LongPoll.Yield
  | .ok b => .batch b
  | .error f => .failure f

def advanceTicker (s : Service) (id : Nat) (t : Ticker) (a : Answer) : Service :=
  match t.loop with
  | .fetching _ =>
    let read := t.read.step t.query s.store s.clock s.wall a
    match read with
    | .finished r =>
      (s.setTask id (.ticker { t with loop := t.loop.fetched (yieldOf r), read })).sweepAfter
        t.query read
    | _ => s.setTask id (.ticker { t with read })
  | loop =>
    let loop := loop.tick s.settings.tickInterval t.deadline s.now
    s.setTask id (.ticker { t with loop, read := t.query.start })

/-- The caller of a long poll looks for a result, and then at its token. -/
def advanceWaiter (s : Service) (id : Nat) (w : Waiter) : Service :=
  let to_ (result : Except Failure WaitOutcome) : Service :=
    (s.setTask w.ticker .gone).setTask id (.waiter { w with result := some result })
  match w.result with
  | some _ => s
  | none =>
    match s.tasks[w.ticker]? with
    | some (.ticker t) =>
      match t.loop.result? with
      | some r => to_ r
      | none => if w.cancelled then to_ (.error .cancelled) else s
    | _ => s

def advanceProbe (s : Service) (id : Nat) (p : Probe) (a : Answer) : Service :=
  let to_ (result : Except Failure Unit) : Service :=
    s.setTask id (.probe { p with result := some result })
  match p.result, a with
  | some _, _ => s
  | none, .done => to_ (.ok ())
  | none, .failed f => to_ (.error (.store f))
  | none, .waiting =>
    if p.deadline ≤ s.time then to_ (.error (.healthCheckTimeout s.settings.healthCheckTimeout))
    else s

def advanceDrain (s : Service) (id : Nat) (d : Drain) : Service :=
  let to_ (result : Except Failure Unit) : Service :=
    s.setTask id (.drain { d with result := some result })
  if d.result.isSome then s
  else if ! s.tasks.any Task.isOpenBackgroundWrite then to_ (.ok ())
  else if d.deadline ≤ s.time then to_ (.error .shutdownTimeout)
  else s

def advancePurger (s : Service) (id : Nat) (p : Purger) (a : Answer) : Service :=
  let to_ (s : Service) (phase : PurgePhase) : Service := s.setTask id (.purger { p with phase })
  match p.phase with
  | .starting => to_ s (if p.interval.isZero then .crashed else .waiting s.time)
  | .waiting due =>
    if p.cancelled then to_ s .stopped
    else if s.time < due then s
    else to_ s (.purging (LongPoll.nextDue p.interval.nanoseconds due s.time))
  | .purging next =>
    match a with
    | .waiting => s
    | .failed _ => to_ s (.waiting next)
    | .done => to_ { s with store := (s.store.purge s.wall).2 } (.waiting next)
  | .stopped | .crashed => s

def advance (s : Service) (id : Nat) (a : Answer) : Service :=
  match s.tasks[id]? with
  | some (.write w) => s.advanceWrite id w a
  | some (.read r) => s.advanceRead id r a
  | some (.sweep key false) =>
    match a with
    | .waiting => s
    | .failed _ => s.setTask id (.sweep key true)
    | .done =>
      { s with store := (s.store.expire key s.settings.retention s.wall).2 }.setTask id
        (.sweep key true)
  | some (.ticker t) => s.advanceTicker id t a
  | some (.waiter w) => s.advanceWaiter id w
  | some (.probe p) => s.advanceProbe id p a
  | some (.drain d) => s.advanceDrain id d
  | some (.purger p) => s.advancePurger id p a
  | _ => s

def isReady (s : Service) (id : Nat) : Bool :=
  match s.tasks[id]? with
  | some (.write w) =>
    match w.phase with
    | .releasing _ | .ending _ => true
    | _ => false
  | some (.read r) =>
    match r.phase with
    | .bounding _ => true
    | _ => false
  | some (.ticker t) =>
    match t.loop with
    | .starting => true
    | .waiting due => due ≤ s.time
    | .fetching _ =>
      match t.read with
      | .bounding _ => true
      | _ => false
    | _ => false
  | some (.waiter w) =>
    w.result.isNone &&
      match s.tasks[w.ticker]? with
      | some (.ticker t) => t.loop.result?.isSome || w.cancelled
      | _ => false
  | some (.probe p) => p.result.isNone && p.deadline ≤ s.time
  | some (.drain d) =>
    d.result.isNone && (! s.tasks.any Task.isOpenBackgroundWrite || d.deadline ≤ s.time)
  | some (.purger p) =>
    match p.phase with
    | .starting => true
    | .waiting due => p.cancelled || due ≤ s.time
    | _ => false
  | _ => false

/-! ## Results -/

/-- What became of a publish: a background write is out of the caller's hands. -/
def publishResult? (s : Service) (p : Publication) : Option (Except Failure Delivery) :=
  match p.delivery, s.tasks[p.task]? with
  | .dispatched, _ => some (.ok .dispatched)
  | .written, some (.write w) =>
    match w.phase with
    | .finished (.ok ()) => some (.ok .written)
    | .finished (.error f) => some (.error (.store f))
    | _ => none
  | _, _ => none

def pollResult? (s : Service) (id : Nat) : Option (Except Failure PollResponse) :=
  match s.tasks[id]? with
  | some (.read r) => r.phase.result?.map (·.map (PollResponse.ofBatch s.settings · false))
  | some (.waiter w) =>
    w.result.map (·.map fun outcome =>
      let batch := match outcome with
        | .ready b => b
        | .timedOut => .empty w.query.cursor
      PollResponse.ofBatch s.settings batch true)
  | _ => none

def outcome? (s : Service) (id : Nat) : Option (Except Failure Unit) :=
  match s.tasks[id]? with
  | some (.probe p) => p.result
  | some (.drain d) => d.result
  | _ => none

end Service

end NotificationQueue
