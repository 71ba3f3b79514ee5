import NotificationQueue.Proofs.Delivery.Cursor

/-!
Polls that go on where a reader has stopped. Every step of a plain poll, of the loop of a long poll
and of its caller keeps this, and so does everything else that happens to the service meanwhile; the
answer carries the events that come next.
-/
namespace NotificationQueue
set_option autoImplicit false

/-! ## Polls that go on -/

variable {s t : Service} {c c' : Core} {log : List Notice} {q : Query} {seen : List Event}
  {l : Option Notice} {d : Int}

structure Ticker.GoesOn (k : Ticker) (c : Core) (log : List Notice) (q : Query)
    (seen : List Event) : Prop where
  query : k.query = q
  read : c.Reads log q seen k.read
  handed : ∀ b, k.loop = .handed (.ok (.ready b)) → c.Delivers log q seen b

def Task.GoesOn (s : Service) (log : List Notice) (q : Query) (seen : List Event) : Task → Prop
  | .read r => r.query = q ∧ s.core.Reads log q seen r.phase
  | .waiter w => w.query = q ∧
    (∀ k, s.tasks[w.ticker]? = some (.ticker k) → k.GoesOn s.core log q seen) ∧
    ∀ b, w.result = some (.ok (.ready b)) → s.core.Delivers log q seen b
  | .gone => True
  | _ => False

theorem LongPoll.Loop.of_fetched_handed {y : Yield} {loop : Loop} {r : Except Failure WaitOutcome}
    (h : loop.fetched y = .handed r) :
    loop = .handed r ∨ (∃ b, y = .batch b ∧ r = .ok (.ready b)) ∨ ∃ f, r = .error f := by
  unfold fetched at h
  split at h
  · split at h
    · next b =>
      split at h
      · cases h
      · cases h
        exact .inr (.inl ⟨b, rfl, rfl⟩)
    · next f =>
      cases h
      exact .inr (.inr ⟨f, rfl⟩)
    · cases h
  · exact .inl h

theorem LongPoll.Loop.of_tick_handed {interval : Duration} {deadline now : Nat} {loop : Loop}
    {b : Batch} (h : loop.tick interval deadline now = .handed (.ok (.ready b))) :
    loop = .handed (.ok (.ready b)) := by
  unfold tick at h
  split at h
  · split at h <;> cases h
  · dsimp only at h
    split at h
    · cases h
    · split at h <;> cases h
  · exact h

theorem LongPoll.Loop.of_result?_ok {loop : Loop} {outcome : WaitOutcome}
    (h : loop.result? = some (.ok outcome)) : loop = .handed (.ok outcome) := by
  unfold result? at h
  split at h
  · cases h
    rfl
  · cases h
  · cases h

/-- What a loop needs to go on: what it reads from is sound, and where it starts again is where the
reader has stopped. -/
structure Core.Ready (c : Core) (log : List Notice) (q : Query) (seen : List Event) : Prop where
  sound : c.Sound log
  named : Core.Named log
  calendar : c.clock.last ≤ Timestamp.latest.score
  follows : c.Follows log q.subject q.type seen
  cursor : q.cursor = Core.cursorBehind seen

theorem Core.Ready.delivers_empty (h : c.Ready log q seen) :
    c.Delivers log q seen (.empty q.cursor) := by
  refine ⟨?_, ?_⟩
  · rw [Batch.empty, List.append_nil]
    exact h.follows
  · rw [Batch.empty, List.append_nil]
    exact h.cursor

theorem Core.Ready.reads_step (h : c.Ready log q seen) {phase : ReadPhase}
    (hr : c.Reads log q seen phase) (a : Answer) :
    c.Reads log q seen (phase.step q c.store c.clock c.wall a) :=
  hr.next h.sound h.named h.calendar h.follows h.cursor a

theorem Ticker.GoesOn.fetch {k : Ticker} (h : k.GoesOn s.core log q seen)
    (hready : s.core.Ready log q seen) (a : Answer) :
    (k.fetch s a).GoesOn s.core log q seen := by
  have hread := hready.reads_step h.read a
  obtain ⟨rfl, -, hhanded⟩ := h
  unfold Ticker.fetch
  dsimp only
  split
  · next r hr =>
    refine ⟨rfl, hread, fun b hb => ?_⟩
    rcases LongPoll.Loop.of_fetched_handed hb with hb | ⟨b', hy, hb'⟩ | ⟨f, hf⟩
    · exact hhanded b hb
    · cases hb'
      cases r with
      | error f => cases hy
      | ok b'' =>
        cases hy
        have hfinished : k.read.step k.query s.core.store s.core.clock s.core.wall a =
          .finished (.ok b) := hr
        rw [hfinished] at hread
        exact hread
    · cases hf
  · exact ⟨rfl, hread, hhanded⟩

theorem Ticker.GoesOn.next {k k' : Ticker} (h : k.GoesOn s.core log q seen)
    (hready : s.core.Ready log q seen) (hnext : Task.Next s (.ticker k) (.ticker k')) :
    k'.GoesOn s.core log q seen := by
  cases hnext with
  | stay => exact h
  | aside ht => exact ht.elim
  | fetch _ a => exact h.fetch hready a
  | tick =>
    have hstart := Core.reads_start hready.named hready.follows hready.cursor
    refine ⟨h.query, ?_, fun b hb => h.handed b (LongPoll.Loop.of_tick_handed hb)⟩
    rw [← h.query] at hstart ⊢
    exact hstart

theorem Core.Delivers.step {b : Batch} (h : c.Delivers log q seen b) (hs : c.Sound log)
    (hstep : c.Step l d c') (hd : 0 ≤ d) (hcal : c'.clock.last ≤ Timestamp.latest.score) :
    c'.Delivers (log ++ l.toList) q seen b :=
  ⟨h.1.step hs hstep hd hcal, h.2⟩

theorem Ticker.GoesOn.step {k : Ticker} (h : k.GoesOn c log q seen) (hready : c.Ready log q seen)
    (hstep : c.Step l d c') (hd : 0 ≤ d) (hcal : c'.clock.last ≤ Timestamp.latest.score) :
    k.GoesOn c' (log ++ l.toList) q seen where
  query := h.query
  read := h.read.step hready.sound hready.follows hstep hd hcal
  handed b hb := (h.handed b hb).step hready.sound hstep hd hcal

theorem Task.Next.eq_ticker {u : Task} {k : Ticker} (h : u.Next s (.ticker k)) :
    ∃ k', u = .ticker k' := by
  cases h with
  | stay => exact ⟨k, rfl⟩
  | aside _ hu => exact hu.elim
  | fetch k' => exact ⟨k', rfl⟩
  | tick k' => exact ⟨k', rfl⟩

namespace Service

section

variable (hl : s.Linked) (hready : s.core.Ready log q seen) {m : Move} (hm : m.IsForward)
  (hcal : (s.move m).clock.last ≤ Timestamp.latest.score)

include hl hready hm hcal

theorem ticker_move {i : Nat} {u : Task} (hu : s.tasks[i]? = some u)
    (h : ∀ k, s.tasks[i]? = some (.ticker k) → k.GoesOn s.core log q seen) {k' : Ticker}
    (hk' : (s.move m).tasks[i]? = some (.ticker k')) :
    k'.GoesOn (s.move m).core (log ++ (s.posted? m).toList) q seen := by
  obtain ⟨v, hv, hnext⟩ := next_move s m hu
  rw [hk'] at hv
  cases hv
  obtain ⟨k, rfl⟩ := hnext.eq_ticker
  exact ((h k hu).next hready hnext).step hready (step_move hl m) hm hcal

theorem waiter_move {id : Nat} {w w' : Waiter} (hw : s.tasks[id]? = some (.waiter w))
    (h : (Task.waiter w).GoesOn s log q seen) (hquery : w'.query = w.query)
    (hticker : w'.ticker = w.ticker)
    (hresult : ∀ b, w'.result = some (.ok (.ready b)) → s.core.Delivers log q seen b) :
    (Task.waiter w').GoesOn (s.move m) (log ++ (s.posted? m).toList) q seen := by
  obtain ⟨hq, hloop, -⟩ := h
  obtain ⟨u, hu, -⟩ := hl id w hw
  refine ⟨hquery.trans hq, fun k hk => ?_, fun b hb => ?_⟩
  · rw [hticker] at hk
    exact ticker_move hl hready hm hcal hu hloop hk
  · exact (hresult b hb).step hready.sound (step_move hl m) hm hcal

/-- **A poll goes on through every move of its service.** -/
theorem goesOn_move {id : Nat} {u : Task} (hu : s.tasks[id]? = some u)
    (h : u.GoesOn s log q seen) :
    ∃ v, (s.move m).tasks[id]? = some v ∧
      v.GoesOn (s.move m) (log ++ (s.posted? m).toList) q seen := by
  obtain ⟨v, hv, hnext⟩ := next_move s m hu
  refine ⟨v, hv, ?_⟩
  have hstep := step_move hl m
  cases hnext with
  | stay =>
    cases u with
    | read r => exact ⟨h.1, h.2.step hready.sound hready.follows hstep hm hcal⟩
    | waiter w => exact waiter_move hl hready hm hcal hu h rfl rfl h.2.2
    | gone => trivial
    | _ => exact h.elim
  | gone => trivial
  | aside ht => cases u <;> first | exact h.elim | exact ht.elim
  | write => exact h.elim
  | read r a =>
    obtain ⟨rfl, hread⟩ := h
    exact ⟨rfl, (hready.reads_step hread a).step hready.sound hready.follows hstep hm hcal⟩
  | fetch => exact h.elim
  | tick => exact h.elim
  | cancel w => exact waiter_move hl hready hm hcal hu h rfl rfl h.2.2
  | answer ht hr =>
    refine waiter_move hl hready hm hcal hu h rfl rfl fun b hb => ?_
    cases hb
    exact (h.2.1 _ ht).handed b (LongPoll.Loop.of_result?_ok hr)
  | giveUp w =>
    refine waiter_move hl hready hm hcal hu h rfl rfl fun b hb => ?_
    cases hb

end

/-! ## The start and the answer of a poll -/

theorem poll?_goesOn {r : PollRequest} {cancelled : Bool} {id : Nat}
    (h : s.poll? r cancelled = some (t, id))
    (hready : s.core.Ready log (r.query s.settings) seen) :
    ∃ v, t.tasks[id]? = some v ∧ v.GoesOn t log (r.query s.settings) seen := by
  have hcore := core_poll? h
  have hstart := Core.reads_start hready.named hready.follows hready.cursor
  obtain ⟨rfl, ⟨-, rfl⟩ | ⟨-, rfl⟩⟩ := of_poll? h
  · refine ⟨_, spawn_of_size rfl _, rfl, ?_⟩
    rw [hcore]
    exact hstart
  · refine ⟨_, spawn_of_getElem? (spawn_of_size rfl _) _, rfl, fun k hk => ?_, nofun⟩
    rw [spawn_of_size (size_spawn s _).symm] at hk
    cases hk
    refine ⟨rfl, ?_, nofun⟩
    rw [hcore]
    exact hstart

theorem delivers_of_pollResult? {id : Nat} {u : Task} {r : PollResponse}
    (hu : s.tasks[id]? = some u) (h : u.GoesOn s log q seen)
    (hready : s.core.Ready log q seen) (hr : s.pollResult? id = some (.ok r)) :
    ∃ b, s.core.Delivers log q seen b ∧ r.events = b.events ∧
      r.lastEventId = b.nextCursor.getD "" := by
  unfold pollResult? at hr
  rw [hu] at hr
  cases u with
  | read x =>
    obtain ⟨rfl, hread⟩ := h
    obtain ⟨result, hphase, hresult⟩ := Option.map_eq_some_iff.1 hr
    cases result with
    | error f => cases hresult
    | ok b =>
      cases hresult
      have hfinished : x.phase = .finished (.ok b) := ReadPhase.of_result?_eq_some hphase
      rw [hfinished] at hread
      exact ⟨b, hread, rfl, rfl⟩
  | waiter w =>
    obtain ⟨rfl, -, hhanded⟩ := h
    obtain ⟨result, hw, hresult⟩ := Option.map_eq_some_iff.1 hr
    cases result with
    | error f => cases hresult
    | ok outcome =>
      cases outcome with
      | ready b =>
        cases hresult
        exact ⟨b, hhanded b hw, rfl, rfl⟩
      | timedOut =>
        cases hresult
        exact ⟨.empty w.query.cursor, hready.delivers_empty, rfl, rfl⟩
  | _ => cases hr

end Service

end NotificationQueue
