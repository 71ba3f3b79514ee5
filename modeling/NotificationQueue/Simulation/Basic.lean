import NotificationQueue.Service.Basic

/-!
Running a service under a script: time is virtual, and the store answers as its faults say. One
party, the script, has the first move; then every task goes on as far as it can; and only when all
wait does time pass, up to the next moment at which one of them can go on.
-/
namespace NotificationQueue

/-! ## Faults -/

inductive StoreOperation where
  | append
  | range
  | trim
  | find
  | expire
  | size
  | ping
  | purge
  deriving DecidableEq, Inhabited

namespace StoreOperation

def all : List StoreOperation :=
  [.append, .range, .trim, .find, .expire, .size, .ping, .purge]

def name : StoreOperation → String
  | .append => "append"
  | .range => "range"
  | .trim => "trim"
  | .find => "find"
  | .expire => "expire"
  | .size => "len"
  | .ping => "ping"
  | .purge => "purge"

def named? (s : String) : Option StoreOperation :=
  all.find? (·.name = s)

end StoreOperation

def StoreCall.operation : StoreCall → StoreOperation
  | .append _ _ => .append
  | .range => .range
  | .trim => .trim
  | .find => .find
  | .expire => .expire
  | .ping => .ping
  | .purge => .purge

inductive StoreFault.Cause where
  | database
  | serialization
  | unavailable
  deriving DecidableEq, Inhabited

def StoreFault.ofCause (c : StoreFault.Cause) (reason : String) : StoreFault :=
  match c with
  | .database => .database reason
  | .serialization => .serialization reason
  | .unavailable => .unavailable reason

structure Fault where
  /-- Only appends of this entity are hit. -/
  entity : Option String := none
  /-- How many more calls are hit. -/
  times : Option Nat := none
  hangs : Bool := false
  /-- Milliseconds before the store acts. -/
  delay : Nat := 0
  /-- The store does not act, but fails. -/
  failure : Option StoreFault.Cause := none
  deriving DecidableEq

def Fault.hits (f : Fault) (call : StoreCall) : Bool :=
  f.times ≠ some 0 &&
    match call, f.entity with
    | .append entity _, some e => entity = e
    | _, _ => true

structure OpenCall where
  readyAt : Option Nat
  fault : Option StoreFault
  deriving DecidableEq

/-! ## Simulations -/

/-- A service under a script. A second reader shares the store and has a clock of its own. -/
structure Simulation where
  service : Service
  peer : Clock := {}
  /-- The second reader's read, if one is under way. -/
  peerRead : Option (Query × ReadPhase) := none
  faults : List (StoreOperation × Fault) := []
  counts : List (StoreOperation × Nat) := []
  /-- The open calls of tasks, and of the second reader where there is no task. -/
  calls : List (Option Nat × OpenCall) := []
  /-- The ids of the events whose appends have reached the store, the last first. -/
  arrivals : List Uuid := []
  /-- The tasks that may still do something. -/
  live : List Nat := []
  ends : List (Nat × Nat) := []

namespace Simulation

/-! ## Calls -/

def count (s : Simulation) (op : StoreOperation) : Nat :=
  ((s.counts.find? (·.1 = op)).map Prod.snd).getD 0

def countCall (s : Simulation) (op : StoreOperation) : Simulation :=
  { s with counts := (op, s.count op + 1) :: s.counts.filter (·.1 ≠ op) }

def useUp (op : StoreOperation) (faults : List (StoreOperation × Fault)) :
    List (StoreOperation × Fault) :=
  faults.map fun (o, f) => if o = op then (o, { f with times := f.times.map (· - 1) }) else (o, f)

def beginCall (s : Simulation) (caller : Option Nat) (call : StoreCall) : Simulation :=
  let op := call.operation
  let arrivals := match call with
    | .append _ id => id :: s.arrivals
    | _ => s.arrivals
  let s := { s.countCall op with arrivals }
  match (s.faults.find? (·.1 = op)).filter (·.2.hits call) with
  | none => { s with calls := (caller, ⟨some s.service.now, none⟩) :: s.calls }
  | some (_, f) =>
    let readyAt := if f.hangs then none else some (s.service.now + f.delay)
    let fault := f.failure.map fun c => StoreFault.ofCause c (op.name ++ " failed")
    { s with calls := (caller, ⟨readyAt, fault⟩) :: s.calls, faults := useUp op s.faults }

def call? (s : Simulation) (caller : Option Nat) : Option OpenCall :=
  (s.calls.find? (·.1 = caller)).map Prod.snd

def endCall (s : Simulation) (caller : Option Nat) : Simulation :=
  { s with calls := s.calls.filter (·.1 ≠ caller) }

def OpenCall.answer (c : OpenCall) (now : Nat) : Answer :=
  match c.readyAt with
  | none => .waiting
  | some t =>
    if now < t then .waiting
    else match c.fault with
      | some f => .failed f
      | none => .done

/-! ## Tasks -/

def advance (s : Simulation) (id : Nat) (a : Answer) : Simulation :=
  let service := s.service.advance id a
  let ended := match service.tasks[id]? with
    | some t => t.isFinished
    | none => true
  { s with service, ends := if ended then (id, service.now) :: s.ends else s.ends }

def step? (s : Simulation) (id : Nat) : Option Simulation :=
  match s.service.tasks[id]?.bind Task.call? with
  | none => if s.service.isReady id then some (s.advance id .waiting) else none
  | some call =>
    match s.call? (some id) with
    | none => some (s.beginCall (some id) call)
    | some c =>
      match OpenCall.answer c s.service.now with
      | .waiting =>
        if s.service.isReady id then some ((s.advance id .waiting).endCall (some id)) else none
      | a => some ((s.advance id a).endCall (some id))

/-- A task goes on as far as it can, in at most `fuel` steps. -/
def runTask (s : Simulation) (id : Nat) : Nat → Simulation × Bool
  | 0 => (s, false)
  | fuel + 1 =>
    match s.step? id with
    | none => (s, false)
    | some s => ((s.runTask id fuel).1, true)

/-- The next step of the second reader, if it can take one now. A read that succeeds is followed by
a sweep. -/
def peerStep? (s : Simulation) : Option Simulation :=
  let go (s : Simulation) (q : Query) (phase : ReadPhase) (a : Answer) : Simulation :=
    let phase := phase.step q s.service.store s.peer s.service.wall a
    { s with
      peerRead := some (q, phase)
      service := s.service.sweepAfter q phase
      live := match phase with
        | .finished (.ok _) => s.live ++ [s.service.tasks.size]
        | _ => s.live }
  match s.peerRead with
  | none => none
  | some (q, phase) =>
    match phase.call? with
    | none => if phase.result?.isSome then none else some (go s q phase .waiting)
    | some call =>
      match s.call? none with
      | none => some (s.beginCall none call)
      | some c =>
        match OpenCall.answer c s.service.now with
        | .waiting => none
        | a => some ((go s q phase a).endCall none)

def runPeer (s : Simulation) : Nat → Simulation
  | 0 => s
  | fuel + 1 =>
    match s.peerStep? with
    | none => s
    | some s => s.runPeer fuel

/-! ## Rounds -/

/-- More steps than any script takes. -/
def patience : Nat := 1000000000000000

def runTasks (s : Simulation) : List Nat → Simulation × Bool
  | [] => (s, false)
  | id :: rest =>
    let (s, moved) := s.runTask id patience
    let (s, others) := s.runTasks rest
    (s, moved || others)

def isOver (s : Simulation) (id : Nat) : Bool :=
  match s.service.tasks[id]? with
  | some t => t.isFinished
  | none => true

/-- The tasks that may still do something, with those begun since `known` of them were there. -/
def refresh (s : Simulation) (known : Nat) : Simulation :=
  let begun := (List.range (s.service.tasks.size - known)).map (known + ·)
  let fresh := begun.filter fun id => ! s.live.contains id
  { s with live := (s.live ++ fresh).filter (! s.isOver ·) }

def round (s : Simulation) (except : Option Nat) : Simulation × Bool :=
  let known := s.service.tasks.size
  let (s, moved) := s.runTasks (s.live.filter fun id => some id ≠ except)
  let s := s.refresh known
  (s, moved || known < s.service.tasks.size)

def settle (s : Simulation) : Nat → Simulation
  | 0 => s
  | fuel + 1 =>
    let (s, moved) := s.round none
    if moved then s.settle fuel else s

/-! ## Waiting -/

inductive Goal where
  | task (id : Nat)
  | time (t : Nat)
  | peer
  deriving DecidableEq

def isMet (s : Simulation) : Goal → Bool
  | .task id => s.isOver id
  | .time t => t ≤ s.service.now
  | .peer =>
    match s.peerRead with
    | some (_, phase) => phase.result?.isSome
    | none => true

def runGoal (s : Simulation) : Goal → Simulation
  | .task id =>
    let known := s.service.tasks.size
    ((s.runTask id patience).1).refresh known
  | .time _ => s
  | .peer => s.runPeer patience

def Goal.task? : Goal → Option Nat
  | .task id => some id
  | _ => none

def nextTime? (s : Simulation) (g : Goal) : Option Nat :=
  let ids := g.task?.toList ++ s.live
  let wakes := ids.filterMap fun id => s.service.tasks[id]?.bind Task.wake?
  let answers := s.calls.filterMap fun (caller, c) =>
    match caller with
    | some id => if s.isOver id then none else c.readyAt
    | none => c.readyAt
  let own := match g with
    | .time t => [t]
    | _ => []
  ((own ++ wakes ++ answers).filter (s.service.now < ·)).min?

def elapseTo (s : Simulation) (t : Nat) : Simulation :=
  { s with service := s.service.elapse (t - s.service.now) }

def await (s : Simulation) (g : Goal) : Nat → Simulation
  | 0 => s
  | fuel + 1 =>
    let s := s.runGoal g
    if s.isMet g then s
    else
      let (s, moved) := s.round g.task?
      if moved then s.await g fuel
      else match s.nextTime? g with
        | none => s
        | some t => (s.elapseTo t).await g fuel

end Simulation

end NotificationQueue
