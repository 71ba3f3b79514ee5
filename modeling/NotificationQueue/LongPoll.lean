import NotificationQueue.Poll

/-!
Long polls. A loop looks for events once every tick until it finds some, a fetch fails, or a tick
comes at or after the deadline; it then hands its result to the caller. The caller takes a result
that was handed over, and otherwise gives up when its token is cancelled; whoever leaves stops the
loop.

Times are nanoseconds where they are due, and milliseconds where they are readings of the timer.
-/
namespace NotificationQueue

inductive WaitOutcome where
  | ready (b : Batch)
  | timedOut
  deriving Inhabited

namespace LongPoll

/-! ## Ticks -/

/-- How late a tick may be handled without moving those that follow. -/
def tolerance : Nat := 5 * Duration.perMilli

/-- When the next tick is due, after one that was due at `due` and handled at `handled`: a late one
moves the grid. The sums are exact: ticks so long that a timer with 64 bits of seconds cannot add
them to a time are left out. -/
def nextDue (tick due handled : Nat) : Nat :=
  if handled ≤ due + tolerance then due + tick else handled + tick

/-- The reading of the timer at which a due time has come. -/
def wake (due : Nat) : Nat :=
  (due + (Duration.perMilli - 1)) / Duration.perMilli

/-- The longest timeout that the timer can add to a time, in seconds. The timer is taken to have
started in its first second, and what it has read since then is not counted: timeouts that fall
short of the limit by no more than that are left out. -/
def maxTimeout : Nat := Text.maxSigned64 - 1

def deadline? (now : Nat) (timeout : Duration) : Option Nat :=
  if timeout.seconds ≤ maxTimeout then some (now * Duration.perMilli + timeout.nanoseconds)
  else none

/-! ## The loop -/

inductive Yield where
  | batch (b : Batch)
  | failure (f : Failure)
  | crash
  deriving Inhabited

inductive Loop where
  | starting
  /-- It waits for the tick that is due at a time. -/
  | waiting (due : Nat)
  /-- It fetches; the next tick is due at a time. -/
  | fetching (next : Nat)
  /-- It has handed over its result. -/
  | handed (result : Except Failure WaitOutcome)
  | crashed
  deriving Inhabited

namespace Loop

/-- What the loop does by itself at a reading of the timer. There are no ticks without time between
them; the first is due at once. A tick looks at the deadline before it fetches. -/
def tick (interval : Duration) (deadline now : Nat) : Loop → Loop
  | .starting => if interval.isZero then .crashed else .waiting (now * Duration.perMilli)
  | .waiting due =>
    let time := now * Duration.perMilli
    if time < due then .waiting due
    else if deadline ≤ time then .handed (.ok .timedOut)
    else .fetching (nextDue interval.nanoseconds due time)
  | loop => loop

def fetched (y : Yield) : Loop → Loop
  | .fetching next =>
    match y with
    | .batch b => if b.isEmpty then .waiting next else .handed (.ok (.ready b))
    | .failure f => .handed (.error f)
    | .crash => .crashed
  | loop => loop

def lost : Failure := .internal "long-poll task ended without a result"

def result? : Loop → Option (Except Failure WaitOutcome)
  | .handed result => some result
  | .crashed => some (.error lost)
  | _ => none

end Loop

/-! ## One wait -/

/-- A fetch: how many milliseconds it takes, if it ends at all, and what it yields. -/
structure Fetch where
  delay : Option Nat
  yield : Yield
  deriving Inhabited

/-- A wait: its times, what each fetch does (given its number and its start), and when the caller's
token is cancelled or the caller leaves. -/
structure Wait where
  timeout : Duration
  interval : Duration
  fetch : Nat → Nat → Fetch
  cancelAt : Option Nat := none
  dropAt : Option Nat := none

inductive Ending where
  | result (r : Except Failure WaitOutcome)
  | dropped

structure WaitState where
  now : Nat := 0
  loop : Loop := .starting
  fetchEnd : Option Nat := none
  yield : Yield := .crash
  /-- When the fetches started, the last first. -/
  starts : List Nat := []
  ending : Option Ending := none

namespace Wait

def hasCome (time : Option Nat) (now : Nat) : Bool :=
  match time with
  | none => false
  | some t => t ≤ now

/-- What the caller sees: a result before a cancellation, and both before it leaves. -/
def callerView (w : Wait) (s : WaitState) : Option Ending :=
  match s.loop.result? with
  | some r => some (.result r)
  | none =>
    if hasCome w.cancelAt s.now then some (.result (.error .cancelled))
    else if hasCome w.dropAt s.now then some .dropped
    else none

def loopStep? (w : Wait) (deadline : Nat) (s : WaitState) : Option WaitState :=
  match s.loop with
  | .starting => some { s with loop := s.loop.tick w.interval deadline s.now }
  | .waiting due =>
    if s.now * Duration.perMilli < due then none
    else
      let loop := s.loop.tick w.interval deadline s.now
      match loop with
      | .fetching _ =>
        let f := w.fetch s.starts.length s.now
        some { s with
          loop, fetchEnd := f.delay.map (s.now + ·), yield := f.yield, starts := s.now :: s.starts }
      | _ => some { s with loop }
  | .fetching _ =>
    if hasCome s.fetchEnd s.now then some { s with loop := s.loop.fetched s.yield } else none
  | _ => none

def nextTime (w : Wait) (s : WaitState) : Option Nat :=
  let loopWake := match s.loop with
    | .waiting due => some (wake due)
    | .fetching _ => s.fetchEnd
    | _ => none
  [loopWake, w.cancelAt, w.dropAt].reduceOption.min?

/-- One step up to the end: the caller looks first, then the loop goes on, and then time passes. -/
def step (w : Wait) (deadline : Nat) (s : WaitState) : WaitState :=
  match s.ending with
  | some _ => s
  | none =>
    match w.callerView s with
    | some e => { s with ending := some e }
    | none =>
      match w.loopStep? deadline s with
      | some after => after
      | none => { s with now := max s.now ((w.nextTime s).getD s.now) }

/-- Enough steps for every tick before the deadline: each takes at most four, and the last ones few
more. -/
def enoughSteps (w : Wait) : Nat :=
  4 * (w.timeout.nanoseconds / w.interval.nanoseconds) + 16

def runFor (w : Wait) (deadline : Nat) (s : WaitState) : Nat → WaitState
  | 0 => s
  | fuel + 1 =>
    match s.ending with
    | some _ => s
    | none => w.runFor deadline (w.step deadline s) fuel

def run? (w : Wait) : Option WaitState :=
  (deadline? 0 w.timeout).map fun deadline => w.runFor deadline {} w.enoughSteps

end Wait

end LongPoll

end NotificationQueue
