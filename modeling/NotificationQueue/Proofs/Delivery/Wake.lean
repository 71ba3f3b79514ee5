import NotificationQueue.Proofs.Delivery.Approach

/-!
Long polls that wake. An entry that can be read, and that a long poll asks for, is found at the next
tick of the poll, and time does not pass beyond that tick before the poll has returned. A tick looks
at the deadline before it looks for events, so that the last one may come too late.
-/
namespace NotificationQueue
set_option autoImplicit false

namespace Service

variable {s t : Service} {id start since : Nat} {q : Query} {x : Entry}

/-! ## At the next tick -/

/-- A long poll has returned events, or, where it may be late, an empty page. -/
def Returns (s : Service) (id : Nat) (q : Query) (late : Prop) : Prop :=
  ∃ ans, s.pollResult? id = some (.ok ans) ∧
    (ans.events ≠ [] ∨ late ∧ ans = PollResponse.ofBatch s.settings (.empty q.cursor) true)

theorem returns_of_stands {cancelled : Bool} {r : Except Failure WaitOutcome}
    {loop : Option (LongPoll.Loop × ReadPhase)} {late : Prop}
    (h : s.Stands id start true q (.long cancelled (some r) loop))
    (hr : LongPoll.Settles late r) : s.Returns id q late := by
  have hresult := pollResult?_of_stands h
  cases r with
  | error f => exact hr.elim
  | ok outcome =>
    refine ⟨_, hresult, ?_⟩
    cases outcome with
    | ready b => exact .inl (List.isEmpty_eq_false_iff.1 hr)
    | timedOut => exact .inr ⟨hr, rfl⟩

theorem Returns.imp {late late' : Prop} (h : s.Returns id q late) (himp : late → late') :
    s.Returns id q late' := by
  obtain ⟨ans, hans, hevents⟩ := h
  exact ⟨ans, hans, hevents.imp_right fun hlate => ⟨himp hlate.1, hlate.2⟩⟩

theorem Awaits.returns (h : s.Awaits id start since q x)
    (hlate : LongPoll.wake (s.settings.tickSince since) < s.now - start) :
    s.Returns id q (s.settings.LateSince since) := by
  obtain ⟨p, hstands, hwaits⟩ := h.polls
  rcases hwaits.cases with ⟨loop, read, rfl, hloop⟩ | ⟨cancelled, r, loop, rfl, hr⟩
  · exact absurd hlate (Nat.not_lt.2 hloop.1)
  · exact returns_of_stands hstands hr

theorem exists_passing {bound : Nat} {ms : List Move} (h : s.now ≤ bound)
    (hlate : bound < (s.run ms).now) :
    ∃ before millis, before ++ [.elapse millis] <+: ms ∧ (s.run before).now ≤ bound ∧
      bound < (s.run before).now + millis := by
  induction ms generalizing s with
  | nil => exact absurd hlate (Nat.not_lt.2 h)
  | cons m ms ih =>
    by_cases hm : (s.move m).now ≤ bound
    · obtain ⟨before, millis, hbefore, hpasses⟩ := ih hm hlate
      exact ⟨m :: before, millis, List.cons_prefix_cons.2 ⟨rfl, hbefore⟩, hpasses⟩
    · rcases s.now_move m with ⟨millis, rfl⟩ | hnow
      · have hfirst : [.elapse millis] <+: Move.elapse millis :: ms :=
          List.cons_prefix_cons.2 ⟨rfl, List.nil_prefix⟩
        exact ⟨[], millis, hfirst, h, Nat.lt_of_not_le hm⟩
      · exact absurd (hnow ▸ h) hm

theorem Awaits.exists_returns {ms : List Move}
    (h : ∀ before, before <+: ms → (s.run before).Awaits id start since q x)
    (hearly : s.now ≤ LongPoll.wake (s.settings.tickSince since) + start)
    (hlate : LongPoll.wake (s.settings.tickSince since) + start < (s.run ms).now) :
    ∃ before, before <+: ms ∧
      (s.run before).now ≤ LongPoll.wake (s.settings.tickSince since) + start ∧
      (s.run before).Returns id q (s.settings.LateSince since) := by
  obtain ⟨before, millis, hprefix, hbefore, hpast⟩ := exists_passing hearly hlate
  refine ⟨before, (List.prefix_append _ _).trans hprefix, hbefore, ?_⟩
  have hnext := (h _ hprefix).returns
  rw [settings_run, run_concat] at hnext
  -- The poll had returned when time passed, and time has not changed it.
  refine hnext ?_
  show _ < (s.run before).now + millis - start
  omega

theorem core_loop_turn {p : PollState} (h : s.Stands id start true q p) (a : Answer) :
    (s.move (.advance (id + 1) a)).core = s.core := by
  have hgone : s.tasks[id + 1]? = some .gone → s.move (.advance (id + 1) a) = s := fun hgone => by
    simp only [Service.move, advance, hgone]
  cases p with
  | plain phase => exact absurd h.1 (by decide)
  | left => rw [hgone (h.2 rfl)]
  | long cancelled result loop =>
    obtain ⟨-, -, hticker⟩ := h
    cases loop with
    | none => rw [hgone hticker]
    | some y =>
      rw [Option.elim_some] at hticker
      have hcore := core_advanceTicker hticker a
      simp only [Service.move, advance, hticker]
      exact hcore

/-- The tick of a poll has come for an entry, and at most some more turns of its loop take it
there. -/
structure AtTick (s : Service) (id start since : Nat) (q : Query) (x : Entry) (n : Nat) :
    Prop where
  awaits : s.Awaits id start since q x
  readable : s.Readable q x
  now : s.now - start = LongPoll.wake (s.settings.tickSince since)
  polls : s.Polls id start q (fun loop read => PollState.Nears s.settings q x since loop read ∧
      PollState.turnsLeft loop read ≤ n)
    (LongPoll.Settles (s.settings.LateSince since))

theorem Awaits.atTick (h : s.Awaits id start since q x) (hx : s.Readable q x)
    (hnow : s.now - start = LongPoll.wake (s.settings.tickSince since)) :
    s.AtTick id start since q x 4 := by
  refine ⟨h, hx, hnow, ?_⟩
  obtain ⟨p, hstands, hwaits⟩ := h.polls
  refine ⟨p, hstands, hwaits.imp (fun loop read hloop => ?_) fun r hr => hr⟩
  obtain ⟨-, hnears⟩ := hloop
  have hsince := QueueSettings.lt_wake_tickSince h.valid since
  rw [if_neg (by omega)] at hnears
  refine ⟨hnears, ?_⟩
  cases loop with
  | starting => exact hnears.elim
  | fetching next => cases read <;> simp [PollState.turnsLeft]
  | waiting | handed | crashed => simp [PollState.turnsLeft]

theorem AtTick.turn {n : Nat} (h : s.AtTick id start since q x (n + 1)) :
    (s.move (.advance (id + 1) .done)).AtTick id start since q x n := by
  have hawaits := h.awaits
  have hsettings := (s.changed_move (.advance (id + 1) .done)).settings
  have hnow : (s.move (.advance (id + 1) .done)).now = s.now := now_advance s _ _
  obtain ⟨p, hstands, hwaits⟩ := h.polls
  constructor
  case awaits =>
    exact hawaits.move h.readable trivial trivial
  case readable => exact h.readable.of_core (core_loop_turn hstands .done)
  case now =>
    rw [hnow, hsettings]
    exact h.now
  case polls =>
    have hturn : (PollTurn.loop .done).isLoops = true → true = true := fun _ => rfl
    have hstands' := stands_turn hawaits.reachable.paired hawaits.start_le hstands hturn
    rw [hsettings]
    refine ⟨_, hstands', hwaits.loop (fun loop read hloop => ?_) fun r hr => hr⟩
    have hahead : s.ahead q.subject.key x < Queue.most s.settings.pageSize := by
      refine hawaits.ahead ?_
      have hsince := QueueSettings.lt_wake_tickSince hawaits.valid since
      have hcome := h.now
      omega
    have hnext := hloop.1.turn hawaits.reachable hawaits.limit
      (QueueSettings.pageSize_pos hawaits.valid) hawaits.word h.readable hahead
      (Nat.le_of_eq h.now) (.inr rfl)
    refine ⟨hnext.1, ?_⟩
    have hleft := hnext.2 (h.now ▸ LongPoll.le_wake _) rfl
    have := hloop.2
    omega

theorem AtTick.turns {n : Nat} (h : s.AtTick id start since q x n) :
    (s.run (List.replicate n (.advance (id + 1) .done))).AtTick id start since q x 0 := by
  induction n generalizing s with
  | zero => exact h
  | succ n ih => exact ih h.turn

theorem AtTick.returns (h : s.AtTick id start since q x 0) (a : Answer) :
    (s.move (.advance id a)).Returns id q (s.settings.LateSince since) := by
  obtain ⟨p, hstands, hwaits⟩ := h.polls
  have hturn : (PollTurn.caller a).isLoops = true → true = true := fun _ => rfl
  have hnext := stands_turn h.awaits.reachable.paired h.awaits.start_le hstands hturn
  rcases hwaits.cases with ⟨loop, read, rfl, hnears, hleft⟩ | ⟨cancelled, r, loop, rfl, hr⟩
  · cases loop with
    | handed r => exact returns_of_stands hnext hnears
    | crashed => exact hnears.elim
    | fetching next => cases read <;> simp [PollState.turnsLeft] at hleft
    | starting | waiting => simp [PollState.turnsLeft] at hleft
  · cases loop <;> exact returns_of_stands hnext hr

/-- A run in which the store answers at once: a long poll begins, its caller waits, and from some
moment before the deadline on an entry can be read that the poll asks for. -/
structure Expects (s₀ : Service) (before : List Move) (r : PollRequest) (t : Service) (id : Nat)
    (mid after : List Move) (x : Entry) : Prop where
  start : ∃ ids wall, start? s₀.settings ids wall = some s₀
  valid : s₀.settings.validate = .ok ()
  word : s₀.settings.pageSize ≤ Text.maxWord64
  prompt : s₀.Prompt before
  long : r.longPoll = true
  poll : (s₀.run before).poll? r false = some (t, id)
  goesOn : t.Prompt (mid ++ after)
  stays : ∀ m ∈ mid ++ after, m.Stays id
  unanswered : (t.run mid).pollResult? id = none
  early : (t.run mid).time < t.time + s₀.settings.longPollTimeout.nanoseconds
  readable : ∀ ms, ms <+: after → ((t.run mid).run ms).Readable (r.query s₀.settings) x

variable {s₀ : Service} {before mid after : List Move} {r : PollRequest}

theorem Expects.settings (h : Expects s₀ before r t id mid after x) :
    (t.run mid).settings = s₀.settings := by
  have hpoll : t.settings = (s₀.run before).settings := congrArg Core.settings (core_poll? h.poll)
  rw [settings_run, hpoll, settings_run]

theorem Expects.awaits (h : Expects s₀ before r t id mid after x) :
    (t.run mid).Awaits id t.now ((t.run mid).now - t.now) (r.query s₀.settings) x := by
  obtain ⟨ids, wall, hstart⟩ := h.start
  have hbefore : (s₀.run before).Reachable := ⟨_, ids, wall, s₀, before, hstart, rfl⟩
  have hmove : (s₀.run before).move (.poll r false) = t := by
    simp only [Service.move, h.poll]
  have ht : t.Reachable := hmove ▸ hbefore.run [.poll r false]
  have hmid : t.Prompt mid := (prompt_append.1 h.goesOn).1
  have hsame : (t.run mid).settings = s₀.settings := h.settings
  have hticks : t.KeepsTicks id t.now (r.query s₀.settings) := by
    have hbegin := keepsTicks_poll? h.poll h.long
    rwa [settings_run, ← now_poll? h.poll] at hbegin
  have htrims : (t.run mid).Trims (r.query s₀.settings).subject.key := by
    have hstill : (s₀.run before).Trims (r.query s₀.settings).subject.key :=
      (trims_start? hstart _).run ⟨_, ids, wall, s₀, [], hstart, rfl⟩ h.prompt
    have hasked : t.Trims (r.query s₀.settings).subject.key :=
      hmove ▸ hstill.move hbefore.linked hbefore.stamped.store trivial
    exact hasked.run ht hmid
  have hstart : t.now ≤ (t.run mid).now := now_le_run t mid
  refine KeepsTicks.awaits (hticks.run ht (Nat.le_refl _) ?_ hmid fun m hm =>
    h.stays m (List.mem_append_left _ hm)) (ht.run mid) (hsame ▸ h.valid) (hsame ▸ h.word)
    (hsame ▸ rfl) htrims hstart ?_ h.unanswered x
  · rw [← settings_run t mid, hsame]
    exact QueueSettings.isZero_tickInterval h.valid
  · have hearly := h.early
    have hlater := Nat.mul_le_mul_right Duration.perMilli hstart
    rw [hsame, Nat.sub_mul]
    unfold time at hearly
    omega

theorem Expects.awaits_run (h : Expects s₀ before r t id mid after x) {ms : List Move}
    (hms : ms <+: after) : ((t.run mid).run ms).Awaits id t.now ((t.run mid).now - t.now)
      (r.query s₀.settings) x := by
  obtain ⟨rest, rfl⟩ := hms
  have hprompt : (t.run mid).Prompt (ms ++ rest) := (prompt_append.1 h.goesOn).2
  refine h.awaits.run (fun more hmore => ?_) (prompt_append.1 hprompt).1 fun m hm => ?_
  · exact h.readable more (hmore.trans (List.prefix_append _ _))
  · exact h.stays m (List.mem_append_right _ (List.mem_append_left _ hm))

theorem tickAfter_time {settings : QueueSettings} (h : t.now ≤ s.now) :
    LongPoll.tickAfter t.time settings.tickInterval.nanoseconds s.time =
      settings.tickSince (s.now - t.now) + t.now * Duration.perMilli := by
  have hsplit : s.time = (s.now - t.now) * Duration.perMilli + t.time := by
    rw [time, time, ← Nat.add_mul, Nat.sub_add_cancel h]
  rw [hsplit, LongPoll.tickAfter_add]
  rfl

def pollTurns (id : Nat) : List Move :=
  List.replicate 4 (.advance (id + 1) .done) ++ [.advance id .done]

/-- **A long poll returns at its first tick after an entry can be read that it asks for.** The tick
comes within a tick interval, and time does not pass beyond it before the poll has returned: with
events, or, where the tick comes at or after the deadline, perhaps with an empty page. -/
theorem returns_at_next_tick {s₀ t : Service} {before mid after : List Move} {r : PollRequest}
    {id : Nat} {x : Entry} (h : Expects s₀ before r t id mid after x) :
    let s := t.run mid
    let q := r.query s₀.settings
    let interval := s₀.settings.tickInterval.nanoseconds
    let tick := LongPoll.tickAfter t.time interval s.time
    let late := t.time + s₀.settings.longPollTimeout.nanoseconds ≤
      LongPoll.wake tick * Duration.perMilli
    (s.time < tick ∧ tick ≤ s.time + interval) ∧
    (Duration.perMilli ∣ interval → LongPoll.wake tick * Duration.perMilli = tick) ∧
    (LongPoll.wake tick < (s.run after).now → ∃ ms, ms <+: after ∧
      (s.run ms).now ≤ LongPoll.wake tick ∧ (s.run ms).Returns id q late) ∧
    ((s.run after).now = LongPoll.wake tick →
      ((s.run after).run (pollTurns id)).Returns id q late) := by
  intro s q interval tick late
  let since := s.now - t.now
  have hsettings : s.settings = s₀.settings := h.settings
  have hstart : t.now ≤ s.now := now_le_run t mid
  have hpos : 0 < interval := QueueSettings.tickInterval_pos h.valid
  -- The poll counts its ticks from its own beginning, and the timer its readings from its own.
  have htick : tick = s.settings.tickSince since + t.now * Duration.perMilli := by
    rw [hsettings]
    exact tickAfter_time hstart
  have hwake : LongPoll.wake tick = LongPoll.wake (s.settings.tickSince since) + t.now := by
    rw [htick, LongPoll.wake_add]
  have hlate : s.settings.LateSince since → late := by
    intro hdue
    show _ ≤ LongPoll.wake tick * Duration.perMilli
    rw [hwake, Nat.add_mul, ← hsettings, Nat.add_comm]
    exact Nat.add_le_add_right hdue _
  refine ⟨⟨LongPoll.lt_tickAfter hpos, ?soon⟩, fun hdvd => ?whole, fun hover => ?passed,
    fun hcome => ?reached⟩
  case soon => exact LongPoll.tickAfter_le (Nat.mul_le_mul_right _ hstart)
  case whole =>
    refine LongPoll.wake_mul_of_dvd (Nat.dvd_add (Nat.dvd_mul_left _ _) ?_)
    exact Nat.dvd_trans hdvd (Nat.dvd_mul_left _ _)
  case passed =>
    have hearly : s.now ≤ LongPoll.wake tick := by
      have hsince := QueueSettings.lt_wake_tickSince (hsettings ▸ h.valid) since
      omega
    rw [hwake] at hearly hover ⊢
    obtain ⟨ms, hprefix, hbefore, hreturned⟩ :=
      Awaits.exists_returns (fun ms hms => h.awaits_run hms) hearly hover
    exact ⟨ms, hprefix, hbefore, hreturned.imp hlate⟩
  case reached =>
    have hend := h.awaits_run (List.prefix_refl after)
    have hnow : (s.run after).now - t.now =
        LongPoll.wake ((s.run after).settings.tickSince since) := by
      rw [settings_run, hcome, hwake, Nat.add_sub_cancel]
    have hreadable := h.readable after (List.prefix_refl after)
    have hanswered := ((hend.atTick hreadable hnow).turns).returns .done
    rw [settings_run, settings_run] at hanswered
    rw [pollTurns, run_concat]
    exact hanswered.imp hlate

/-! ## Orders just before a tick -/

def patient (timeout tick : Duration) : QueueSettings where
  longPollTimeout := timeout
  tickInterval := tick
  healthCheckTimeout := .ofMillis 500

def watching : PollRequest := ⟨.admin, none, none, true⟩

def watched (timeout tick : Duration) : Service :=
  (sample (patient timeout tick) 1000000).move (.poll watching false)

def firstOrder (timeout tick : Duration) (ms : List Move) : Entry :=
  (((watched timeout tick).run ms).store.entries Subject.admin.key).headD default

def WaitsForOrder (timeout tick : Duration) (mid after : List Move) : Prop :=
  Expects (sample (patient timeout tick) 1000000) [] watching (watched timeout tick) 0 mid after
    (firstOrder timeout tick mid)

theorem waitsForOrder {timeout tick : Duration} {mid after : List Move}
    (hvalid : (patient timeout tick).validate = .ok ())
    (hpoll : (sample (patient timeout tick) 1000000).poll? watching false =
      some (watched timeout tick, 0))
    (hprompt : (watched timeout tick).Prompt (mid ++ after))
    (hstays : ∀ m ∈ mid ++ after, m.Stays 0) :
    let s := (watched timeout tick).run mid
    s.pollResult? 0 = none → s.time < (watched timeout tick).time + timeout.nanoseconds →
    (after.inits.map fun ms => (s.run ms).store.liveEntries Subject.admin.key (s.run ms).wall) =
      List.replicate after.inits.length [firstOrder timeout tick mid] →
    (∀ ms ∈ after.inits,
      (firstOrder timeout tick mid).score ≤ (s.run ms).clock.horizon (s.run ms).wall) →
    WaitsForOrder timeout tick mid after := by
  intro s hopen hearly hlive hgranted
  have hslots : (patient timeout tick).writeSlots ≤ Slots.maxCapacity :=
    show 100 ≤ Slots.maxCapacity by decide
  have hword : (patient timeout tick).pageSize ≤ Text.maxWord64 :=
    show 50 ≤ Text.maxWord64 by decide
  refine ⟨⟨sampleIds, 1000000, start?_sample hslots 1000000⟩, hvalid, hword, trivial, rfl, hpoll,
    hprompt, hstays, hopen, hearly, fun ms hms => ?_⟩
  have hmem : ms ∈ after.inits := (List.mem_inits ms after).2 hms
  have hstored := List.map_eq_replicate_iff.1 hlive ms hmem
  refine ⟨?_, fun _ ht => (nomatch ht), fun _ hbound => (nomatch hbound), hgranted ms hmem⟩
  show _ ∈ (s.run ms).store.liveEntries Subject.admin.key (s.run ms).wall
  rw [hstored]
  exact List.mem_singleton_self _

def look : List Move := List.replicate 3 (.advance 1 .done)

/-- The poll looks in vain three times, 400 ms apart, and after 900 ms an order lands. -/
def threeLooks : List Move :=
  .advance 1 .done :: look ++ .advance 2 .done :: .elapse 400 :: look ++
    .advance 3 .done :: .elapse 400 :: look ++ [.advance 4 .done, .elapse 100,
      .publish (.newOrder "a" "x" "1"), .advance 5 .done, .advance 5 .done]

/-- The poll looks once more, and a little later its time is over. -/
def fourthLook : List Move :=
  .advance 5 .done :: .advance 5 .done :: .elapse 300 :: look ++
    [.advance 0 .done, .advance 6 .done, .elapse 100]

/-- The order is found 300 ms after it has landed. -/
theorem returns_at_next_tick_order :
    let t := watched (.ofMillis 1600) (.ofMillis 400)
    let s := t.run threeLooks
    WaitsForOrder (.ofMillis 1600) (.ofMillis 400) threeLooks fourthLook ∧ s.now = 900 ∧
      ∃ ms ans, ms <+: fourthLook ∧ (s.run ms).now ≤ 1200 ∧
        (s.run ms).pollResult? 0 = some (.ok ans) ∧ ans.events ≠ [] := by
  intro t s
  have hwaits : WaitsForOrder (.ofMillis 1600) (.ofMillis 400) threeLooks fourthLook :=
    waitsForOrder (by decide) rfl (by decide +kernel) (by decide) (by decide +kernel)
      (by decide +kernel) rfl (by decide +kernel)
  have htick : LongPoll.wake (LongPoll.tickAfter t.time 400000000 s.time) = 1200 := by
    decide +kernel
  have hover : 1200 < (s.run fourthLook).now := by decide +kernel
  have hearly : ¬ t.time + 1600000000 ≤ 1200 * Duration.perMilli := by decide +kernel
  obtain ⟨-, -, hreturns, -⟩ := returns_at_next_tick hwaits
  obtain ⟨ms, hms, hnow, ans, hans, hevents⟩ := hreturns (htick.symm ▸ hover)
  refine ⟨hwaits, by decide +kernel, ms, ans, hms, htick ▸ hnow, hans, ?_⟩
  refine hevents.resolve_right fun hlate => hearly ?_
  rw [← htick]
  exact hlate.1

/-- The deadline has come before the next tick, so that the poll is answered without another
look. -/
def noLook : List Move :=
  [.advance 5 .done, .advance 5 .done, .elapse 300, .advance 1 .done, .advance 0 .done, .elapse 100]

/-- The poll looks in vain at once, and an order lands within the same millisecond. -/
def firstLook : List Move :=
  .advance 1 .done :: look ++ [.advance 2 .done, .publish (.newOrder "a" "x" "1"),
    .advance 3 .done, .advance 3 .done]

def secondLook : List Move :=
  .advance 3 .done :: .advance 3 .done :: .elapse 1 :: look ++ [.advance 0 .done]

def hasReturnedEvents (s : Service) (id : Nat) : Bool :=
  match s.pollResult? id with
  | some (.ok ans) => ! ans.events.isEmpty
  | _ => false

/-- An order that lands 100 ms before the deadline is not found, as the deadline comes before the
next tick; and where ticks are half a millisecond apart the timer is too coarse for them. -/
theorem not_returned_within_tick_interval :
    (let t := watched (.ofMillis 1000) (.ofMillis 400)
      let s := t.run threeLooks
      WaitsForOrder (.ofMillis 1000) (.ofMillis 400) threeLooks noLook ∧
        (s.run noLook).time = s.time + 400000000 ∧
        ∀ ms, ms <+: noLook → (s.run ms).hasReturnedEvents 0 = false) ∧
    (let t := watched (.ofMillis 1000) ⟨500000⟩
      let s := t.run firstLook
      WaitsForOrder (.ofMillis 1000) ⟨500000⟩ firstLook secondLook ∧
        s.time + 500000 < (s.run secondLook).time ∧
        ∀ ms, ms <+: secondLook → (s.run ms).time ≤ s.time + 500000 →
          (s.run ms).hasReturnedEvents 0 = false) := by
  constructor
  · intro t s
    have hnone : ∀ ms ∈ noLook.inits, (s.run ms).hasReturnedEvents 0 = false := by decide +kernel
    refine ⟨?_, by decide +kernel, fun ms hms => hnone ms ((List.mem_inits ms _).2 hms)⟩
    exact waitsForOrder (by decide) rfl (by decide +kernel) (by decide) (by decide +kernel)
      (by decide +kernel) rfl (by decide +kernel)
  · intro t s
    have hnone : ∀ ms ∈ secondLook.inits, (s.run ms).time ≤ s.time + 500000 →
        (s.run ms).hasReturnedEvents 0 = false := by decide +kernel
    refine ⟨?_, by decide +kernel, fun ms hms => hnone ms ((List.mem_inits ms _).2 hms)⟩
    exact waitsForOrder (by decide) rfl (by decide +kernel) (by decide) (by decide +kernel)
      (by decide +kernel) rfl (by decide +kernel)

end Service

end NotificationQueue
