import NotificationQueue.Proofs.Delivery.Poll
import NotificationQueue.Proofs.Service.Agreement
import NotificationQueue.Proofs.Service.Turns

/-!
Polls as machines of their own. What becomes of a poll depends on the turns that its tasks get and
on what its service shows at them: the queue that it reads, the clock, the wall clock, and the time
since the poll began. Nothing else of the service has a part in it.
-/
namespace NotificationQueue
set_option autoImplicit false

/-! ## Where the tasks of a poll stand -/

namespace Service

variable {s t : Service}

/-- The loop of each long poll stands right behind its caller. -/
structure Paired (s : Service) : Prop where
  linked : s.Linked
  behind : ∀ (i : Nat) (w : Waiter), s.tasks[i]? = some (.waiter w) → w.ticker = i + 1

theorem Paired.moved (h : s.Paired) (hm : s.Moved t) : t.Paired where
  linked := h.linked.moved hm
  behind i w hw := by
    cases hi : s.tasks[i]? with
    | none => exact (hm.fresh i _ hi hw).elim
    | some u =>
      obtain ⟨v, hv, hnext⟩ := hm.next i u hi
      rw [hw] at hv
      cases hv
      obtain ⟨w', rfl, hticker⟩ := hnext.eq_waiter
      exact hticker ▸ h.behind i w' hi

theorem Paired.poll? (h : s.Paired) {r : PollRequest} {cancelled : Bool} {id : Nat}
    (hp : s.poll? r cancelled = some (t, id)) : t.Paired where
  linked := h.linked.poll? hp
  behind i w hw := by
    obtain ⟨-, ⟨-, rfl⟩ | ⟨-, rfl⟩⟩ := of_poll? hp
    · rw [spawn_getElem?] at hw
      split at hw
      · cases hw
      · exact h.behind i w hw
    · rw [spawn_getElem?, spawn_getElem?] at hw
      split at hw
      · cases hw
      · split at hw
        · next hi =>
          cases hw
          rw [hi]
        · exact h.behind i w hw

theorem Paired.move (h : s.Paired) (m : Move) : (s.move m).Paired := by
  by_cases hm : ∃ r cancelled, m = .poll r cancelled
  · obtain ⟨r, cancelled, rfl⟩ := hm
    simp only [Service.move]
    split
    · next after id hp => exact h.poll? hp
    · exact h
  · exact h.moved (moved_move s fun r cancelled he => hm ⟨r, cancelled, he⟩)

theorem Paired.run (h : s.Paired) (ms : List Move) : (s.run ms).Paired := by
  induction ms generalizing s with
  | nil => exact h
  | cons m ms ih => exact ih (h.move m)

theorem paired_start? {settings : QueueSettings} {ids : Nat → Uuid} {wall : Score}
    (h : start? settings ids wall = some s) : s.Paired where
  linked := linked_start? h
  behind i w hw := by
    obtain ⟨slots, rfl⟩ := start?_eq_some h
    simp at hw

theorem Reachable.paired (h : s.Reachable) : s.Paired := by
  obtain ⟨settings, ids, wall, s₀, ms, hstart, rfl⟩ := h
  exact (paired_start? hstart).run ms

/-! ## The timer -/

theorem now_advance (s : Service) (i : Nat) (a : Answer) : (s.advance i a).now = s.now := by
  unfold advance
  split
  · unfold advanceWrite
    dsimp only
    repeat' split
    all_goals rfl
  · unfold advanceRead sweepAfter
    dsimp only
    repeat' split
    all_goals rfl
  · cases a <;> rfl
  · unfold advanceTicker sweepAfter
    dsimp only
    repeat' split
    all_goals rfl
  · unfold advanceWaiter
    dsimp only
    repeat' split
    all_goals rfl
  · unfold advanceProbe
    dsimp only
    repeat' split
    all_goals rfl
  · unfold advanceDrain
    dsimp only
    repeat' split
    all_goals rfl
  · unfold advancePurger
    dsimp only
    repeat' split
    all_goals rfl
  · rfl

theorem now_cancel (s : Service) (i : Nat) : (s.cancel i).now = s.now := by
  unfold cancel
  split <;> rfl

theorem now_drop (s : Service) (i : Nat) : (s.drop i).now = s.now := by
  unfold drop
  repeat' split
  all_goals rfl

theorem now_poll? {r : PollRequest} {cancelled : Bool} {id : Nat}
    (h : s.poll? r cancelled = some (t, id)) : t.now = s.now := by
  obtain ⟨-, ⟨-, rfl⟩ | ⟨-, rfl⟩⟩ := of_poll? h <;> rfl

theorem now_move (s : Service) (m : Move) :
    (∃ millis, m = .elapse millis) ∨ (s.move m).now = s.now := by
  cases m with
  | publish r =>
    right
    rw [move_publish]
    split
    · unfold submit
      dsimp only
      split <;> rfl
    · rfl
  | poll r cancelled =>
    right
    simp only [move]
    split
    · next after id hp => exact now_poll? hp
    · rfl
  | advance i a => exact .inr (now_advance s i a)
  | cancel i => exact .inr (now_cancel s i)
  | drop i => exact .inr (now_drop s i)
  | elapse millis => exact .inl ⟨millis, rfl⟩
  | probe | shutdown | purgeEvery | skew => exact .inr rfl

theorem now_le_move (s : Service) (m : Move) : s.now ≤ (s.move m).now := by
  rcases s.now_move m with ⟨millis, rfl⟩ | hnow
  · exact Nat.le_add_right _ _
  · exact Nat.le_of_eq hnow.symm

theorem now_le_run (s : Service) (ms : List Move) : s.now ≤ (s.run ms).now := by
  induction ms generalizing s with
  | nil => exact Nat.le_refl _
  | cons m ms ih => exact Nat.le_trans (now_le_move s m) (ih (s.move m))

end Service

/-! ## Loops at other times -/

namespace LongPoll.Loop

def later (n : Nat) : Loop → Loop
  | .waiting due => .waiting (due + n)
  | .fetching next => .fetching (next + n)
  | loop => loop

theorem nextDue_later (tick due handled n : Nat) :
    nextDue tick (due + n) (handled + n) = nextDue tick due handled + n := by
  unfold nextDue
  split
  · split <;> omega
  · split <;> omega

theorem tick_waiting (interval : Duration) (deadline now due : Nat) :
    (Loop.waiting due).tick interval deadline now =
      if now * Duration.perMilli < due then .waiting due
      else if deadline ≤ now * Duration.perMilli then .handed (.ok .timedOut)
      else .fetching (nextDue interval.nanoseconds due (now * Duration.perMilli)) := rfl

/-- A loop goes on alike at all times. The times differ by any number of nanoseconds here, as a
multiple of a millisecond would be counted out where terms are compared. -/
theorem tick_later {now now' n : Nat}
    (h : now' * Duration.perMilli = now * Duration.perMilli + n) (interval : Duration)
    (deadline : Nat) (loop : Loop) :
    (loop.later n).tick interval (deadline + n) now' =
      (loop.tick interval deadline now).later n := by
  cases loop with
  | starting =>
    simp only [later, tick, h]
    split <;> rfl
  | waiting due =>
    rw [later, tick_waiting, tick_waiting, h, nextDue_later]
    simp only [Nat.add_lt_add_iff_right, Nat.add_le_add_iff_right]
    split
    · rfl
    · split <;> rfl
  | fetching | handed | crashed => rfl

theorem fetched_later (n : Nat) (y : Yield) (loop : Loop) :
    (loop.later n).fetched y = (loop.fetched y).later n := by
  cases loop with
  | fetching next =>
    cases y with
    | batch b =>
      simp only [later, fetched]
      split <;> rfl
    | failure | crash => rfl
  | starting | waiting | handed | crashed => rfl

theorem result?_later (n : Nat) (loop : Loop) : (loop.later n).result? = loop.result? := by
  cases loop <;> rfl

end LongPoll.Loop

namespace Ticker

def later (n : Nat) (k : Ticker) : Ticker :=
  { k with deadline := k.deadline + n, loop := k.loop.later n }

def turn (k : Ticker) (s : Service) (time : Nat) (a : Answer) : Ticker :=
  match k.loop with
  | .fetching _ => k.fetch s a
  | _ =>
    { k with
      loop := k.loop.tick s.settings.tickInterval k.deadline time
      read := k.query.start }

theorem fetch_later (n : Nat) (k : Ticker) (s : Service) (a : Answer) :
    (k.later n).fetch s a = (k.fetch s a).later n := by
  unfold fetch
  dsimp only [later]
  split
  · rw [LongPoll.Loop.fetched_later]
  · rfl

theorem turn_of_ne {k : Ticker} (h : ∀ next, k.loop ≠ .fetching next) (s : Service) (time : Nat)
    (a : Answer) : k.turn s time a =
      { k with
        loop := k.loop.tick s.settings.tickInterval k.deadline time
        read := k.query.start } := by
  unfold turn
  split
  · next n hn => exact absurd hn (h n)
  · rfl

theorem turn_later {time time' n : Nat}
    (h : time' * Duration.perMilli = time * Duration.perMilli + n) (k : Ticker) (s : Service)
    (a : Answer) : (k.later n).turn s time' a = (k.turn s time a).later n := by
  -- A fetching loop takes a step of its read, and any other one of its own.
  by_cases hfetching : ∃ next, k.loop = .fetching next
  · obtain ⟨next, hloop⟩ := hfetching
    simp only [turn, later, hloop, LongPoll.Loop.later]
    have hfetch := fetch_later n k s a
    simpa only [later, hloop, LongPoll.Loop.later] using hfetch
  · have hidle : ∀ next, k.loop ≠ .fetching next := fun next hloop => hfetching ⟨next, hloop⟩
    have hlater : ∀ next, (k.later n).loop ≠ .fetching next := by
      intro next hloop
      rw [later] at hloop
      cases hk : k.loop with
      | fetching m => exact hidle m hk
      | starting | waiting | handed | crashed =>
        rw [hk] at hloop
        cases hloop
    have htick := LongPoll.Loop.tick_later h s.settings.tickInterval k.deadline k.loop
    rw [turn_of_ne hidle, turn_of_ne hlater]
    exact congrArg (fun loop => (⟨k.query, k.deadline + n, loop, k.query.start⟩ : Ticker)) htick

end Ticker

/-! ## The machine of a poll -/

/-- A turn of a poll: a step of the task that its caller waits for or of its loop, or a word of who
is behind one of the two. -/
inductive PollTurn where
  | caller (a : Answer)
  | loop (a : Answer)
  | cancel
  | leave
  | stop

/-- The turn that a move is to a poll whose task has a number; the loop of a long one comes next. -/
def Move.pollTurn? (id : Nat) (long : Bool) : Move → Option PollTurn
  | .advance i a =>
    if i = id then some (.caller a)
    else if long ∧ i = id + 1 then some (.loop a)
    else none
  | .cancel i => if i = id then some .cancel else none
  | .drop i =>
    if i = id then some .leave
    else if long ∧ i = id + 1 then some .stop
    else none
  | _ => none

def PollTurn.move (id : Nat) : PollTurn → Move
  | .caller a => .advance id a
  | .loop a => .advance (id + 1) a
  | .cancel => .cancel id
  | .leave => .drop id
  | .stop => .drop (id + 1)

def PollTurn.isLoops : PollTurn → Bool
  | .loop _ | .stop => true
  | _ => false

theorem PollTurn.pollTurn?_move {turn : PollTurn} {id : Nat} {long : Bool}
    (h : turn.isLoops = true → long = true) : (turn.move id).pollTurn? id long = some turn := by
  cases turn with
  | caller | cancel | leave => exact if_pos rfl
  | loop | stop => simp [move, Move.pollTurn?, h rfl]

theorem Move.of_pollTurn? {m : Move} {id : Nat} {long : Bool} {turn : PollTurn}
    (h : m.pollTurn? id long = some turn) :
    m = turn.move id ∧ (turn.isLoops = true → long = true) := by
  cases m with
  | advance i a =>
    rw [pollTurn?] at h
    split at h
    · next hi =>
      cases h
      exact ⟨hi ▸ rfl, nofun⟩
    · split at h
      · next hi =>
        cases h
        exact ⟨hi.2 ▸ rfl, fun _ => hi.1⟩
      · cases h
  | cancel i =>
    rw [pollTurn?] at h
    split at h
    · next hi =>
      cases h
      exact ⟨hi ▸ rfl, nofun⟩
    · cases h
  | drop i =>
    rw [pollTurn?] at h
    split at h
    · next hi =>
      cases h
      exact ⟨hi ▸ rfl, nofun⟩
    · split at h
      · next hi =>
        cases h
        exact ⟨hi.2 ▸ rfl, fun _ => hi.1⟩
      · cases h
  | _ => cases h

theorem Move.apart_of_pollTurn? {m : Move} {id : Nat} {long : Bool}
    (h : m.pollTurn? id long = none) :
    (m.turn? id = none ∧ m ≠ .cancel id ∧ m ≠ .drop id) ∧
      (long = true → m.turn? (id + 1) = none ∧ m ≠ .drop (id + 1)) := by
  cases m with
  | advance i a =>
    rw [pollTurn?] at h
    split at h
    · cases h
    · next hi =>
      split at h
      · cases h
      · next hnext =>
        refine ⟨⟨if_neg hi, nofun, nofun⟩, fun hl => ⟨if_neg fun hi' => hnext ⟨hl, hi'⟩, nofun⟩⟩
  | cancel i =>
    rw [pollTurn?] at h
    split at h
    · cases h
    · next hi => exact ⟨⟨rfl, fun he => hi (Move.cancel.inj he), nofun⟩, fun _ => ⟨rfl, nofun⟩⟩
  | drop i =>
    rw [pollTurn?] at h
    split at h
    · cases h
    · next hi =>
      split at h
      · cases h
      · next hnext =>
        exact ⟨⟨rfl, nofun, fun he => hi (Move.drop.inj he)⟩,
          fun hl => ⟨rfl, fun he => hnext ⟨hl, Move.drop.inj he⟩⟩⟩
  | _ => exact ⟨⟨rfl, nofun, nofun⟩, fun _ => ⟨rfl, nofun⟩⟩

/-- A poll, apart from where its tasks stand and when it began. -/
inductive PollState where
  | plain (phase : ReadPhase)
  | long (cancelled : Bool) (result : Option (Except Failure WaitOutcome))
    (loop : Option (LongPoll.Loop × ReadPhase))
  | left

namespace PollState

def begin (q : Query) (long cancelled : Bool) : PollState :=
  if long then .long cancelled none (some (.starting, q.start)) else .plain q.start

/-- The loop of a long poll that began at the zero of the timer. -/
def tickerOf (q : Query) (s : Service) (loop : LongPoll.Loop) (read : ReadPhase) : Ticker :=
  ⟨q, s.settings.longPollTimeout.nanoseconds, loop, read⟩

/-- A poll after a turn at a service, some milliseconds after it began. -/
def next (q : Query) (s : Service) (elapsed : Nat) : PollTurn → PollState → PollState
  | .caller a, .plain phase => .plain (phase.step q s.store s.clock s.wall a)
  | .caller _, .long cancelled none (some (loop, read)) =>
    match loop.result? with
    | some r => .long cancelled (some r) none
    | none =>
      if cancelled then .long cancelled (some (.error .cancelled)) none
      else .long cancelled none (some (loop, read))
  | .loop a, .long cancelled result (some (loop, read)) =>
    let k := (tickerOf q s loop read).turn s elapsed a
    .long cancelled result (some (k.loop, k.read))
  | .cancel, .long _ result loop => .long true result loop
  | .stop, .long cancelled result _ => .long cancelled result none
  | .leave, _ => .left
  | _, p => p

def after (q : Query) (start : Nat) (p : PollState) (turns : List (PollTurn × Service)) :
    PollState :=
  turns.foldl (fun p x => p.next q x.2 (x.2.now - start) x.1) p

def result? (settings : QueueSettings) (q : Query) :
    PollState → Option (Except Failure PollResponse)
  | .plain phase => phase.result?.map (·.map (PollResponse.ofBatch settings · false))
  | .long _ result _ =>
    result.map (·.map fun outcome =>
      let batch := match outcome with
        | .ready b => b
        | .timedOut => .empty q.cursor
      PollResponse.ofBatch settings batch true)
  | .left => none

end PollState

namespace Service

variable {s t : Service} {id start : Nat} {long : Bool} {q : Query} {p : PollState}

def seen (s : Service) (id : Nat) (long : Bool) : List Move → List (PollTurn × Service)
  | [] => []
  | m :: ms => ((m.pollTurn? id long).map (·, s)).toList ++ (s.move m).seen id long ms

theorem exists_of_mem_seen {ms : List Move} {x : PollTurn × Service}
    (h : x ∈ s.seen id long ms) : ∃ before, before <+: ms ∧ x.2 = s.run before := by
  induction ms generalizing s with
  | nil => cases h
  | cons m ms ih =>
    rcases List.mem_append.1 h with hhere | hlater
    · obtain ⟨turn, -, rfl⟩ := Option.map_eq_some_iff.1 (Option.mem_toList.1 hhere)
      exact ⟨[], List.nil_prefix, rfl⟩
    · obtain ⟨before, hbefore, hx⟩ := ih hlater
      exact ⟨m :: before, List.cons_prefix_cons.2 ⟨rfl, hbefore⟩, hx⟩

/-- The tasks of a poll that began at a reading of the timer stand as a state of it tells. -/
def Stands (s : Service) (id start : Nat) (long : Bool) (q : Query) : PollState → Prop
  | .plain phase => long = false ∧ s.tasks[id]? = some (.read ⟨q, phase⟩)
  | .long cancelled result loop => long = true ∧
    s.tasks[id]? = some (.waiter ⟨q, id + 1, cancelled, result⟩) ∧
    s.tasks[id + 1]? = some (loop.elim .gone fun x =>
      .ticker ((PollState.tickerOf q s x.1 x.2).later (start * Duration.perMilli)))
  | .left => s.tasks[id]? = some .gone ∧ (long = true → s.tasks[id + 1]? = some .gone)

def isLongPoll (s : Service) (id : Nat) : Bool :=
  match s.tasks[id]? with
  | some (.waiter _) => true
  | _ => false

theorem stands_poll? {r : PollRequest} {cancelled : Bool}
    (h : s.poll? r cancelled = some (t, id)) :
    t.Stands id s.now r.longPoll (r.query s.settings)
      (.begin (r.query s.settings) r.longPoll cancelled) := by
  obtain ⟨rfl, ⟨hl, rfl⟩ | ⟨hl, rfl⟩⟩ := of_poll? h
  · rw [hl]
    exact ⟨rfl, spawn_of_size rfl _⟩
  · rw [hl]
    refine ⟨rfl, spawn_of_getElem? (spawn_of_size rfl _) _, ?_⟩
    rw [spawn_of_size (size_spawn s _).symm]
    exact congrArg (fun d => some (Task.ticker ⟨_, d, _, _⟩)) (Nat.add_comm _ _)

theorem isLongPoll_poll? {r : PollRequest} {cancelled : Bool}
    (h : s.poll? r cancelled = some (t, id)) : t.isLongPoll id = r.longPoll := by
  have hstands := stands_poll? h
  unfold isLongPoll
  cases hl : r.longPoll with
  | false =>
    rw [hl] at hstands
    rw [hstands.2]
  | true =>
    rw [hl] at hstands
    rw [hstands.2.1]

theorem pollResult?_of_stands (h : s.Stands id start long q p) :
    s.pollResult? id = p.result? s.settings q := by
  unfold pollResult?
  cases p with
  | plain phase =>
    rw [h.2]
    rfl
  | long cancelled result loop =>
    rw [h.2.1]
    rfl
  | left =>
    rw [h.1]
    rfl

/-! ## Turns of its own -/

theorem advanceTicker_getElem? {i : Nat} {k : Ticker} (hk : s.tasks[i]? = some (.ticker k))
    (a : Answer) :
    (s.advanceTicker i k a).tasks[i]? = some (.ticker (k.turn s s.now a)) := by
  have hset : ∀ v : Task, (s.setTask i v).tasks[i]? = some v := setTask_of_getElem? hk
  unfold advanceTicker Ticker.turn Ticker.fetch
  cases hloop : k.loop with
  | fetching next =>
    cases hread : k.read.step k.query s.store s.clock s.wall a with
    | finished r =>
      simp only
      exact sweepAfter_of_getElem? (hset _) _ _
    | locating | bounding | ranging =>
      simp only
      exact hset _
  | starting | waiting | handed | crashed => exact hset _

theorem advanceRead_getElem? {i : Nat} {r : Read} (hr : s.tasks[i]? = some (.read r))
    (a : Answer) :
    (s.advanceRead i r a).tasks[i]? =
      some (.read { r with phase := r.phase.step r.query s.store s.clock s.wall a }) := by
  have hset : ∀ v : Task, (s.setTask i v).tasks[i]? = some v := setTask_of_getElem? hr
  obtain ⟨query, phase⟩ := r
  cases phase with
  | finished result => exact hr
  | locating | bounding | ranging => exact sweepAfter_of_getElem? (hset _) _ _

theorem advanceWaiter_stands {cancelled : Bool} {result : Option (Except Failure WaitOutcome)}
    {loop : Option (LongPoll.Loop × ReadPhase)}
    (h : s.Stands id start long q (.long cancelled result loop)) (a : Answer) (elapsed : Nat) :
    (s.advanceWaiter id ⟨q, id + 1, cancelled, result⟩).Stands id start long q
      (PollState.next q s elapsed (.caller a) (.long cancelled result loop)) := by
  obtain ⟨hlong, hwaiter, hticker⟩ := h
  have hend : ∀ r : Except Failure WaitOutcome,
      ((s.setTask (id + 1) .gone).setTask id (.waiter ⟨q, id + 1, cancelled, some r⟩)).Stands id
        start long q (.long cancelled (some r) none) := by
    intro r
    have hother : (s.setTask (id + 1) .gone).tasks[id]? =
        some (.waiter ⟨q, id + 1, cancelled, result⟩) :=
      (setTask_of_ne (Nat.ne_of_lt (Nat.lt_succ_self id)) s _).trans hwaiter
    refine ⟨hlong, setTask_of_getElem? hother _, ?_⟩
    rw [setTask_of_ne (Nat.succ_ne_self id)]
    exact setTask_of_getElem? hticker _
  unfold advanceWaiter
  cases result with
  | some r => exact ⟨hlong, hwaiter, hticker⟩
  | none =>
    cases loop with
    | none =>
      simp only [hticker]
      exact ⟨hlong, hwaiter, hticker⟩
    | some x =>
      obtain ⟨loop, read⟩ := x
      have hloop : ((PollState.tickerOf q s loop read).later
          (start * Duration.perMilli)).loop.result? = loop.result? :=
        LongPoll.Loop.result?_later _ loop
      simp only [hticker, Option.elim_some, hloop, PollState.next]
      cases loop.result? with
      | some r => exact hend r
      | none =>
        cases cancelled with
        | true => exact hend _
        | false => exact ⟨hlong, hwaiter, hticker⟩

theorem tickerOf_turn (q : Query) (s : Service) (loop : LongPoll.Loop) (read : ReadPhase)
    (elapsed : Nat) (a : Answer) :
    PollState.tickerOf q s ((PollState.tickerOf q s loop read).turn s elapsed a).loop
        ((PollState.tickerOf q s loop read).turn s elapsed a).read =
      (PollState.tickerOf q s loop read).turn s elapsed a := by
  cases loop with
  | fetching next =>
    simp only [Ticker.turn, PollState.tickerOf, Ticker.fetch]
    split <;> rfl
  | starting | waiting | handed | crashed => rfl

theorem gone_move (h : s.tasks[id]? = some .gone) (m : Move) :
    (s.move m).tasks[id]? = some .gone := by
  obtain ⟨v, hv, hnext⟩ := next_move s m h
  cases hnext with
  | stay => exact hv
  | gone => exact hv
  | aside ht => exact ht.elim

theorem cancel_of_isLoop {i : Nat} {u : Task} (hu : s.tasks[i]? = some u) (hloop : u.IsLoop) :
    s.cancel i = s := by
  unfold cancel
  rw [hu]
  cases u with
  | ticker | gone => rfl
  | _ => exact hloop.elim

theorem tickerOf_congr (h : s.settings = t.settings) (q : Query) (loop : LongPoll.Loop)
    (read : ReadPhase) : PollState.tickerOf q s loop read = PollState.tickerOf q t loop read := by
  rw [PollState.tickerOf, PollState.tickerOf, h]

theorem stands_plain_turn {phase : ReadPhase} (h : s.Stands id start false q (.plain phase))
    {turn : PollTurn} (hturn : turn.isLoops = false) (elapsed : Nat) :
    (s.move (turn.move id)).Stands id start false q
      (PollState.next q s elapsed turn (.plain phase)) := by
  have hread := h.2
  cases turn with
  | caller a =>
    have hmove : s.move (.advance id a) = s.advanceRead id ⟨q, phase⟩ a := by
      simp only [move, advance, hread]
    rw [PollTurn.move, hmove]
    exact ⟨rfl, advanceRead_getElem? hread a⟩
  | cancel =>
    have hmove : s.move (.cancel id) = s := by simp only [move, cancel, hread]
    rw [PollTurn.move, hmove]
    exact h
  | leave =>
    have hmove : s.move (.drop id) = s.setTask id .gone := by simp only [move, drop, hread]
    rw [PollTurn.move, hmove]
    exact ⟨setTask_of_getElem? hread _, fun hl => absurd hl Bool.false_ne_true⟩
  | loop a => cases hturn
  | stop => cases hturn

section

variable (hp : s.Paired) {cancelled : Bool} {result : Option (Except Failure WaitOutcome)}
  {loop : Option (LongPoll.Loop × ReadPhase)}
  (h : s.Stands id start true q (.long cancelled result loop))

include h

theorem stands_long_stop (elapsed : Nat) : (s.move (.drop (id + 1))).Stands id start true q
    (PollState.next q s elapsed .stop (.long cancelled result loop)) := by
  obtain ⟨-, hwaiter, hticker⟩ := h
  have hne : id ≠ id + 1 := Nat.ne_of_lt (Nat.lt_succ_self id)
  have hmove : s.move (.drop (id + 1)) = s.setTask (id + 1) .gone := by
    cases loop <;> simp only [move, drop, hticker, Option.elim_none, Option.elim_some]
  rw [hmove]
  exact ⟨rfl, (setTask_of_ne hne s _).trans hwaiter, setTask_of_getElem? hticker _⟩

include hp

theorem stands_long_loop (hstart : start ≤ s.now) (a : Answer) :
    (s.move (.advance (id + 1) a)).Stands id start true q
      (PollState.next q s (s.now - start) (.loop a) (.long cancelled result loop)) := by
  obtain ⟨-, hwaiter, hticker⟩ := h
  have hturn : Move.turn? id (.advance (id + 1) a) = none := if_neg (Nat.succ_ne_self id)
  have hwaiter' : (s.move (.advance (id + 1) a)).tasks[id]? =
      some (.waiter ⟨q, id + 1, cancelled, result⟩) :=
    move_of_ne hp.linked hwaiter False.elim hturn nofun nofun
  cases loop with
  | none => exact ⟨rfl, hwaiter', gone_move hticker _⟩
  | some x =>
    obtain ⟨loop, read⟩ := x
    have hmove : s.move (.advance (id + 1) a) = s.advanceTicker (id + 1)
        ((PollState.tickerOf q s loop read).later (start * Duration.perMilli)) a := by
      simp only [move, advance, hticker, Option.elim_some]
    have htimer : s.now * Duration.perMilli =
        (s.now - start) * Duration.perMilli + start * Duration.perMilli := by
      rw [← Nat.add_mul, Nat.sub_add_cancel hstart]
    have hthis := advanceTicker_getElem? hticker a
    rw [← hmove, Ticker.turn_later htimer, ← tickerOf_turn,
      ← tickerOf_congr (step_move hp.linked (.advance (id + 1) a)).settings] at hthis
    exact ⟨rfl, hwaiter', hthis⟩

theorem stands_long_turn (hstart : start ≤ s.now) (turn : PollTurn) :
    (s.move (turn.move id)).Stands id start true q
      (PollState.next q s (s.now - start) turn (.long cancelled result loop)) := by
  have hwaiter := h.2.1
  have hne : id ≠ id + 1 := Nat.ne_of_lt (Nat.lt_succ_self id)
  cases turn with
  | caller a =>
    have hmove : s.move (.advance id a) =
        s.advanceWaiter id ⟨q, id + 1, cancelled, result⟩ := by
      simp only [move, advance, hwaiter]
    rw [PollTurn.move, hmove]
    exact advanceWaiter_stands h a _
  | cancel =>
    have hmove : s.move (.cancel id) =
        s.setTask id (.waiter ⟨q, id + 1, true, result⟩) := by
      simp only [move, cancel, hwaiter]
    rw [PollTurn.move, hmove]
    exact ⟨rfl, setTask_of_getElem? hwaiter _, (setTask_of_ne hne.symm s _).trans h.2.2⟩
  | leave =>
    have hmove : s.move (.drop id) = (s.setTask (id + 1) .gone).setTask id .gone := by
      simp only [move, drop, hwaiter]
    rw [PollTurn.move, hmove]
    exact ⟨setTask_of_getElem? ((setTask_of_ne hne s _).trans hwaiter) _, fun _ =>
      (setTask_of_ne hne.symm _ _).trans (setTask_of_getElem? h.2.2 _)⟩
  | stop => exact stands_long_stop h _
  | loop a => exact stands_long_loop hp h hstart a

end

theorem stands_turn (hp : s.Paired) (hstart : start ≤ s.now) (h : s.Stands id start long q p)
    {turn : PollTurn} (hturn : turn.isLoops = true → long = true) :
    (s.move (turn.move id)).Stands id start long q (p.next q s (s.now - start) turn) := by
  cases p with
  | plain phase =>
    obtain ⟨rfl, hread⟩ := h
    exact stands_plain_turn ⟨rfl, hread⟩
      (Bool.eq_false_iff.2 fun hl => Bool.false_ne_true (hturn hl)) _
  | long cancelled result loop =>
    obtain ⟨rfl, htasks⟩ := h
    exact stands_long_turn hp ⟨rfl, htasks⟩ hstart turn
  | left =>
    have hgone : (s.move (turn.move id)).Stands id start long q .left :=
      ⟨gone_move h.1 _, fun hl => gone_move (h.2 hl) _⟩
    cases turn <;> exact hgone

theorem stands_apart (hp : s.Paired) (h : s.Stands id start long q p) {m : Move}
    (hm : m.pollTurn? id long = none) : (s.move m).Stands id start long q p := by
  obtain ⟨⟨hturn, hcancel, hdrop⟩, hloop⟩ := Move.apart_of_pollTurn? hm
  cases p with
  | left => exact ⟨gone_move h.1 m, fun hl => gone_move (h.2 hl) m⟩
  | plain phase => exact ⟨h.1, move_of_ne hp.linked h.2 False.elim hturn hcancel hdrop⟩
  | long cancelled result loop =>
    obtain ⟨rfl, hwaiter, hticker⟩ := h
    refine ⟨rfl, move_of_ne hp.linked hwaiter False.elim hturn hcancel hdrop, ?_⟩
    cases loop with
    | none => exact gone_move hticker m
    | some x =>
      rw [Option.elim_some] at hticker
      rw [Option.elim_some, tickerOf_congr (step_move hp.linked m).settings]
      by_cases hc : m = .cancel (id + 1)
      · subst hc
        have hmove : s.move (.cancel (id + 1)) = s := cancel_of_isLoop hticker trivial
        rw [hmove]
        exact hticker
      · refine move_of_apart hticker (hloop rfl).1 hc (hloop rfl).2 fun j w hw heq => ?_
        -- No other caller has this loop.
        obtain rfl : id = j := Nat.succ.inj (heq.trans (hp.behind j w hw))
        exact ⟨hturn, hdrop⟩

/-- **However a run goes, a poll stands as its own turns tell**, each with what its service shows at
it. -/
theorem stands_run (hp : s.Paired) (hstart : start ≤ s.now) (h : s.Stands id start long q p)
    (ms : List Move) :
    (s.run ms).Stands id start long q (p.after q start (s.seen id long ms)) := by
  -- Each move is a turn of the poll or leaves it alone.
  induction ms generalizing s p with
  | nil => exact h
  | cons m ms ih =>
    have hlater : start ≤ (s.move m).now := hstart.trans (now_le_move s m)
    cases hm : m.pollTurn? id long with
    | none =>
      have hrest := ih (hp.move m) hlater (stands_apart hp h hm)
      rw [seen, hm]
      exact hrest
    | some turn =>
      obtain ⟨rfl, hturn⟩ := Move.of_pollTurn? hm
      have hrest := ih (hp.move _) hlater (stands_turn hp hstart h hturn)
      rw [seen, hm]
      exact hrest

theorem pollResult?_run {r : PollRequest} {cancelled : Bool} (hp : s.Paired)
    (h : s.poll? r cancelled = some (t, id)) (ms : List Move) :
    (t.run ms).pollResult? id =
      ((PollState.begin (r.query s.settings) r.longPoll cancelled).after (r.query s.settings) s.now
        (t.seen id r.longPoll ms)).result? s.settings (r.query s.settings) := by
  have hsettings : (t.run ms).settings = s.settings :=
    (settings_run t ms).trans (congrArg Core.settings (core_poll? h))
  have hnow : s.now ≤ t.now := Nat.le_of_eq (now_poll? h).symm
  rw [pollResult?_of_stands (stands_run (hp.poll? h) hnow (stands_poll? h) ms), hsettings]

end Service

end NotificationQueue
