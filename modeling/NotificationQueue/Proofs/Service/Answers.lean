import NotificationQueue.Proofs.Service.LongPolls

/-!
What callers of polls are told. A property of reads that each of their steps keeps passes to all
that the loop of a long poll hands over, so what its caller is told comes of a read, of the
deadline, or of a cancellation. A poll fails because the store did or because it was cancelled; as
long as ticks have time between them no loop ends without a result.
-/
namespace NotificationQueue
set_option autoImplicit false

namespace PollState

/-- What a poll has read has one property, and what its caller is or will be told another. -/
def Obeys (R : ReadPhase → Prop) (O : Except Failure WaitOutcome → Prop) : PollState → Prop
  | .plain read => R read
  | .long _ result loop =>
    (∀ r, result = some r → O r) ∧
      ∀ x, loop = some x → (∀ r, x.1.result? = some r → O r) ∧ R x.2
  | .left => True

/-- Two properties, of reads and of what callers are told, agree with the turns of a poll at a
service, some milliseconds after it began. -/
structure Rules (q : Query) (s : Service) (elapsed : Nat) (R : ReadPhase → Prop)
    (O : Except Failure WaitOutcome → Prop) : Prop where
  begun : R q.start
  step : ∀ read a, R read → R (read.step q s.store s.clock s.wall a)
  decided : ∀ x r, R (.finished x) → (Service.yieldOf x).decides = some r → O r
  late : s.settings.longPollTimeout.nanoseconds ≤ elapsed * Duration.perMilli → O (.ok .timedOut)
  cancelled : O (.error .cancelled)
  lost : s.settings.tickInterval.isZero = true → O (.error LongPoll.Loop.lost)

variable {q : Query} {s : Service} {elapsed : Nat} {R : ReadPhase → Prop}
  {O : Except Failure WaitOutcome → Prop} {loop : LongPoll.Loop} {read : ReadPhase} {p : PollState}

theorem obeys_begin (h : R q.start) (long cancelled : Bool) :
    (begin q long cancelled).Obeys R O := by
  unfold begin
  split
  · refine ⟨nofun, fun x hx => ?_⟩
    cases hx
    exact ⟨nofun, h⟩
  · exact h

namespace Rules

theorem fetched (h : Rules q s elapsed R O) {x : Except Failure Batch} (hx : R (.finished x))
    (next : Nat) {r : Except Failure WaitOutcome}
    (hr : ((LongPoll.Loop.fetching next).fetched (Service.yieldOf x)).result? = some r) : O r := by
  cases hdecides : (Service.yieldOf x).decides with
  | none =>
    rw [LongPoll.fetched_of_open hdecides] at hr
    cases hr
  | some r' =>
    rw [LongPoll.result?_fetched hdecides] at hr
    exact h.decided x r hx (hdecides.trans hr)

theorem turn (h : Rules q s elapsed R O) (hloop : ∀ r, loop.result? = some r → O r) (hread : R read)
    (a : Answer) :
    (∀ r, ((tickerOf q s loop read).turn s elapsed a).loop.result? = some r → O r) ∧
      R ((tickerOf q s loop read).turn s elapsed a).read := by
  cases loop with
  | starting =>
    rw [Ticker.turn_of_ne (fun _ hne => by cases hne)]
    dsimp only [tickerOf]
    refine ⟨fun r hr => ?_, h.begun⟩
    rw [LongPoll.Loop.tick] at hr
    split at hr
    · next hzero =>
      cases hr
      exact h.lost hzero
    · cases hr
  | waiting due =>
    rw [turn_of_waiting, LongPoll.Loop.tick_waiting]
    dsimp only [tickerOf]
    refine ⟨fun r hr => ?_, h.begun⟩
    split at hr
    · cases hr
    · split at hr
      · next hlate =>
        cases hr
        exact h.late hlate
      · cases hr
  | fetching next =>
    have hstep := h.step read a hread
    show (∀ r, ((tickerOf q s (.fetching next) read).fetch s a).loop.result? = some r → O r) ∧
      R ((tickerOf q s (.fetching next) read).fetch s a).read
    rw [Ticker.fetch_read]
    refine ⟨fun r hr => ?_, hstep⟩
    unfold Ticker.fetch at hr
    dsimp only [tickerOf] at hr
    split at hr
    · next x hx =>
      rw [hx] at hstep
      exact h.fetched hstep next hr
    · cases hr
  | handed | crashed =>
    rw [Ticker.turn_of_ne (fun _ hne => by cases hne)]
    exact ⟨hloop, h.begun⟩

/-- **A turn of a poll keeps to the rules.** -/
theorem next (h : Rules q s elapsed R O) (hp : p.Obeys R O) (turn : PollTurn) :
    (p.next q s elapsed turn).Obeys R O := by
  cases p with
  | left => cases turn <;> exact hp
  | plain read =>
    cases turn with
    | caller a => exact h.step read a hp
    | leave => trivial
    | loop | cancel | stop => exact hp
  | long cancelled result loop =>
    obtain ⟨hresult, hloop⟩ := hp
    cases turn with
    | cancel => exact ⟨hresult, hloop⟩
    | leave => trivial
    | stop => exact ⟨hresult, fun _ hx => by cases hx⟩
    | loop a =>
      cases loop with
      | none => exact ⟨hresult, hloop⟩
      | some x =>
        obtain ⟨hhanded, hread⟩ := hloop x rfl
        refine ⟨hresult, fun y hy => ?_⟩
        cases hy
        exact h.turn hhanded hread a
    | caller a =>
      match result, loop with
      | some r, _ => exact ⟨hresult, hloop⟩
      | none, none => exact ⟨hresult, hloop⟩
      | none, some (loop, read) =>
        simp only [PollState.next]
        split
        · next r hr =>
          refine ⟨fun r' hr' => ?_, fun _ hx => by cases hx⟩
          cases hr'
          exact (hloop _ rfl).1 r hr
        · split
          · refine ⟨fun r' hr' => ?_, fun _ hx => by cases hx⟩
            cases hr'
            exact h.cancelled
          · exact ⟨hresult, hloop⟩

end Rules

theorem Obeys.after (hp : p.Obeys R O) {start : Nat} {turns : List (PollTurn × Service)}
    (h : ∀ x ∈ turns, Rules q x.2 (x.2.now - start) R O) : (p.after q start turns).Obeys R O := by
  induction turns generalizing p with
  | nil => exact hp
  | cons x turns ih =>
    have hfirst := (h x List.mem_cons_self).next hp x.1
    exact ih hfirst fun y hy => h y (List.mem_cons_of_mem x hy)

theorem Obeys.of_result? (hp : p.Obeys R O) {settings : QueueSettings}
    {result : Except Failure PollResponse} (h : p.result? settings q = some result) :
    (∃ x, R (.finished x) ∧ result = x.map (PollResponse.ofBatch settings · false)) ∨
      ∃ r, O r ∧ result = r.map fun outcome => PollResponse.ofBatch settings
        (match outcome with
          | .ready b => b
          | .timedOut => .empty q.cursor) true := by
  cases p with
  | left => cases h
  | plain read =>
    obtain ⟨x, hx, rfl⟩ := Option.map_eq_some_iff.1 h
    have hread : R read := hp
    rw [ReadPhase.of_result?_eq_some hx] at hread
    exact .inl ⟨x, hread, rfl⟩
  | long _ result loop =>
    obtain ⟨r, rfl, rfl⟩ := Option.map_eq_some_iff.1 h
    exact .inr ⟨r, hp.1 r rfl, rfl⟩

end PollState

namespace Service

variable {s t : Service} {r : PollRequest} {cancelled : Bool} {id : Nat}

/-- **The answer of a poll keeps to the rules** that hold at all its turns. -/
theorem pollResult?_of_rules {R : ReadPhase → Prop} {O : Except Failure WaitOutcome → Prop}
    (hp : s.Paired) (h : s.poll? r cancelled = some (t, id)) (hbegun : R (r.query s.settings).start)
    {ms : List Move} (hrules : ∀ x ∈ t.seen id r.longPoll ms,
      PollState.Rules (r.query s.settings) x.2 (x.2.now - s.now) R O)
    {result : Except Failure PollResponse} (hresult : (t.run ms).pollResult? id = some result) :
    (∃ x, R (.finished x) ∧ result = x.map (PollResponse.ofBatch s.settings · false)) ∨
      ∃ r', O r' ∧ result = r'.map fun outcome => PollResponse.ofBatch s.settings
        (match outcome with
          | .ready b => b
          | .timedOut => .empty (r.query s.settings).cursor) true := by
  rw [pollResult?_run hp h] at hresult
  exact ((PollState.obeys_begin hbegun r.longPoll cancelled).after hrules).of_result? hresult

/-! ## Failures -/

/-- **A poll fails because the store did or because it was cancelled**, or because there is no time
between its ticks. -/
theorem failure_of_pollResult? (hp : s.Paired) (h : s.poll? r cancelled = some (t, id))
    {ms : List Move} {f : Failure} (hresult : (t.run ms).pollResult? id = some (.error f)) :
    (∃ fault, f = .store fault) ∨ f = .cancelled ∨
      s.settings.tickInterval.isZero = true ∧ f = LongPoll.Loop.lost := by
  let R : ReadPhase → Prop := fun read =>
    ∀ f, read = .finished (.error f) → ∃ fault, f = .store fault
  let O : Except Failure WaitOutcome → Prop := fun result => ∀ f, result = .error f →
    (∃ fault, f = .store fault) ∨ f = .cancelled ∨
      s.settings.tickInterval.isZero = true ∧ f = LongPoll.Loop.lost
  have hbegun : R (r.query s.settings).start := by
    intro f hfailed
    unfold Query.start at hfailed
    split at hfailed <;> cases hfailed
  have hstep : ∀ (u : Service) (read : ReadPhase) (a : Answer), R read →
      R (read.step (r.query s.settings) u.store u.clock u.wall a) := by
    intro u read a hread
    cases read with
    | bounding =>
      intro f hfailed
      cases hfailed
    | locating | ranging =>
      intro f hfailed
      cases a with
      | waiting | done => cases hfailed
      | failed fault =>
        cases hfailed
        exact ⟨fault, rfl⟩
    | finished x => exact hread
  have hdecided : ∀ x result, R (.finished x) → (yieldOf x).decides = some result → O result := by
    rintro x result hx hr f rfl
    cases x with
    | error f =>
      cases hr
      exact .inl (hx f rfl)
    | ok b =>
      simp only [yieldOf, LongPoll.Yield.decides] at hr
      split at hr <;> cases hr
  have hanswer := pollResult?_of_rules (O := O) hp h hbegun (fun x hx =>
    { begun := hbegun
      step := hstep x.2
      decided := hdecided
      late := fun _ _ hfailed => by cases hfailed
      cancelled := fun f hfailed => by
        cases hfailed
        exact .inr (.inl rfl)
      lost := fun hzero f hfailed => by
        cases hfailed
        rw [settings_of_mem_seen hx, settings_poll? h] at hzero
        exact .inr (.inr ⟨hzero, rfl⟩) }) hresult
  rcases hanswer with ⟨x, hx, hfailed⟩ | ⟨r', hr', hfailed⟩
  · cases x with
    | ok b => cases hfailed
    | error f =>
      cases hfailed
      exact .inl (hx f rfl)
  · cases r' with
    | ok outcome => cases hfailed
    | error f =>
      cases hfailed
      exact hr' f rfl

theorem pollResult?_ne_internal (hp : s.Paired) (htick : s.settings.tickInterval.isZero = false)
    (h : s.poll? r cancelled = some (t, id)) (ms : List Move) (reason : String) :
    (t.run ms).pollResult? id ≠ some (.error (.internal reason)) := by
  intro hresult
  rcases failure_of_pollResult? hp h hresult with ⟨fault, hf⟩ | hf | ⟨hzero, -⟩
  · cases hf
  · cases hf
  · rw [htick] at hzero
    cases hzero

end Service

end NotificationQueue
