import NotificationQueue.Service.Basic

/-!
Runs of a service. A move is a request, a step of one task, the end of a caller's interest, or a
movement of time; a run is any list of moves, so every interleaving is one. No move takes a task
away: each task is left as it was, takes one step of its own, or is left by its caller.
-/
namespace NotificationQueue
set_option autoImplicit false

/-! ## Moves -/

inductive Move where
  | publish (r : PublishRequest)
  | poll (r : PollRequest) (cancelled : Bool)
  | probe
  | shutdown
  | purgeEvery (interval : Duration)
  | advance (id : Nat) (a : Answer)
  | cancel (id : Nat)
  | drop (id : Nat)
  | elapse (millis : Nat)
  | skew (micros : Int)

def Move.micros : Move → Int
  | .elapse millis => millis * 1000
  | .skew micros => micros
  | _ => 0

def Move.IsForward (m : Move) : Prop := 0 ≤ m.micros

instance (m : Move) : Decidable m.IsForward :=
  inferInstanceAs (Decidable (0 ≤ m.micros))

structure Notice where
  subject : Subject
  event : Event

namespace Service

/-- The service after a move; a request that is refused changes nothing. -/
def move (s : Service) : Move → Service
  | .publish r =>
    match s.publish r with
    | .ok (after, _) => after
    | .error _ => s
  | .poll r cancelled =>
    match s.poll? r cancelled with
    | some (after, _) => after
    | none => s
  | .probe => s.probe.1
  | .shutdown => s.shutdown.1
  | .purgeEvery interval => (s.purgeEvery interval).1
  | .advance id a => s.advance id a
  | .cancel id => s.cancel id
  | .drop id => s.drop id
  | .elapse millis => s.elapse millis
  | .skew micros => s.skew micros

theorem move_publish (s : Service) (r : PublishRequest) :
    s.move (.publish r) =
      match r.draft s.wall with
      | .ok d => (s.submit d).1
      | .error _ => s := by
  simp only [move, publish]
  cases r.draft s.wall <;> rfl

def notice (s : Service) (d : Draft) : Notice :=
  ⟨d.subject, d.event (s.ids s.issued) (s.clock.reserve s.wall).1 s.settings.retention.seconds⟩

def posted? (s : Service) : Move → Option Notice
  | .publish r =>
    match r.draft s.wall with
    | .ok d => some (s.notice d)
    | .error _ => none
  | _ => none

def run (s : Service) (ms : List Move) : Service :=
  ms.foldl move s

@[simp] theorem run_cons (s : Service) (m : Move) (ms : List Move) :
    s.run (m :: ms) = (s.move m).run ms := rfl

theorem run_append (s : Service) (ms ns : List Move) : s.run (ms ++ ns) = (s.run ms).run ns :=
  List.foldl_append

theorem run_concat (s : Service) (ms : List Move) (m : Move) :
    s.run (ms ++ [m]) = (s.run ms).move m :=
  run_append s ms [m]

end Service

/-! ## What every task does -/

/-- A task can be added by a move, and is not the caller of a long poll: it has done nothing yet,
and a read asks for a page. -/
def Task.IsFresh (settings : QueueSettings) : Task → Prop
  | .read r => r.phase = r.query.start ∧ ∃ p : PollRequest, r.query = p.query settings
  | .ticker t => t.read = t.query.start ∧ ∃ p : PollRequest, t.query = p.query settings
  | .waiter _ | .gone => False
  | _ => True

def Task.IsAside : Task → Prop
  | .sweep _ _ | .probe _ | .drain _ | .purger _ => True
  | _ => False

def Ticker.fetch (t : Ticker) (s : Service) (a : Answer) : Ticker :=
  let read := t.read.step t.query s.store s.clock s.wall a
  match read with
  | .finished r => { t with loop := t.loop.fetched (Service.yieldOf r), read }
  | _ => { t with read }

@[simp] theorem Ticker.fetch_query (t : Ticker) (s : Service) (a : Answer) :
    (t.fetch s a).query = t.query := by
  unfold fetch
  dsimp only
  split
  · rfl
  · rfl

@[simp] theorem Ticker.fetch_read (t : Ticker) (s : Service) (a : Answer) :
    (t.fetch s a).read = t.read.step t.query s.store s.clock s.wall a := by
  unfold fetch
  dsimp only
  split
  · rfl
  · rfl

def Task.read? : Task → Option (Query × ReadPhase)
  | .read r => some (r.query, r.phase)
  | .ticker t => some (t.query, t.read)
  | _ => none

inductive Task.Next (s : Service) : Task → Task → Prop
  | stay (t : Task) : Next s t t
  | gone (t : Task) : Next s t .gone
  | aside {t u : Task} (ht : t.IsAside) (hu : u.IsAside) : Next s t u
  | write (w v : Write) : Next s (.write w) (.write v)
  | read (r : Read) (a : Answer) :
    Next s (.read r) (.read { r with phase := r.phase.step r.query s.store s.clock s.wall a })
  | fetch (t : Ticker) (a : Answer) : Next s (.ticker t) (.ticker (t.fetch s a))
  | tick (t : Ticker) :
    Next s (.ticker t) (.ticker { t with
      loop := t.loop.tick s.settings.tickInterval t.deadline s.now, read := t.query.start })
  | cancel (w : Waiter) : Next s (.waiter w) (.waiter { w with cancelled := true })
  | answer {w : Waiter} {t : Ticker} {r : Except Failure WaitOutcome}
    (ht : s.tasks[w.ticker]? = some (.ticker t)) (hr : t.loop.result? = some r) :
    Next s (.waiter w) (.waiter { w with result := some r })
  | giveUp (w : Waiter) : Next s (.waiter w) (.waiter { w with result := some (.error .cancelled) })

namespace Service

variable {s t : Service}

theorem setTask_getElem? (s : Service) (id i : Nat) (t : Task) :
    (s.setTask id t).tasks[i]? = if i = id then s.tasks[i]?.map fun _ => t else s.tasks[i]? := by
  rw [setTask, Array.getElem?_setIfInBounds]
  by_cases h : i = id
  · subst h
    by_cases hi : i < s.tasks.size
    · simp [hi]
    · simp [hi]
  · rw [if_neg (Ne.symm h), if_neg h]

theorem setTask_of_getElem? {id : Nat} {u : Task} (h : s.tasks[id]? = some u) (v : Task) :
    (s.setTask id v).tasks[id]? = some v := by
  rw [setTask_getElem?, if_pos rfl, h]
  rfl

theorem spawn_getElem? (s : Service) (t : Task) (i : Nat) :
    (s.spawn t).tasks[i]? = if i = s.tasks.size then some t else s.tasks[i]? :=
  Array.getElem?_push

theorem lt_size_of_getElem? {i : Nat} {u : Task} (h : s.tasks[i]? = some u) : i < s.tasks.size :=
  (Array.getElem?_eq_some_iff.1 h).1

/-- Each task of a service is found again in a later one, after one step at most, and those added
are fresh. -/
structure Moved (s t : Service) : Prop where
  next : ∀ (i : Nat) (u : Task), s.tasks[i]? = some u → ∃ v, t.tasks[i]? = some v ∧ u.Next s v
  fresh : ∀ (i : Nat) (v : Task), s.tasks[i]? = none → t.tasks[i]? = some v →
    v.IsFresh s.settings

theorem Moved.of_tasks (h : t.tasks = s.tasks) : s.Moved t where
  next _ u hu := ⟨u, h ▸ hu, .stay u⟩
  fresh i v hnone hv := by
    rw [h, hnone] at hv
    cases hv

theorem Moved.setTask {id : Nat} {u v : Task} (h : s.Moved t) (hu : s.tasks[id]? = some u)
    (hnext : u.Next s v) : s.Moved (t.setTask id v) where
  next i x hx := by
    obtain ⟨y, hy, hxy⟩ := h.next i x hx
    by_cases hi : i = id
    · subst hi
      rw [hu] at hx
      cases hx
      exact ⟨v, setTask_of_getElem? hy v, hnext⟩
    · refine ⟨y, ?_, hxy⟩
      rw [setTask_getElem?, if_neg hi, hy]
  fresh i x hnone hx := by
    have hi : i ≠ id := by
      rintro rfl
      rw [hu] at hnone
      cases hnone
    rw [setTask_getElem?, if_neg hi] at hx
    exact h.fresh i x hnone hx

theorem Moved.spawn {v : Task} (h : s.Moved t) (hv : v.IsFresh s.settings) :
    s.Moved (t.spawn v) where
  next i x hx := by
    obtain ⟨y, hy, hxy⟩ := h.next i x hx
    have hi : i ≠ t.tasks.size := Nat.ne_of_lt (lt_size_of_getElem? hy)
    exact ⟨y, by rw [spawn_getElem?, if_neg hi, hy], hxy⟩
  fresh i x hnone hx := by
    rw [spawn_getElem?] at hx
    split at hx
    · cases hx
      exact hv
    · exact h.fresh i x hnone hx

theorem moved_submit (s : Service) (d : Draft) : s.Moved (s.submit d).1 := by
  unfold submit
  dsimp only
  split
  · exact Moved.spawn (.of_tasks rfl) trivial
  · exact Moved.spawn (.of_tasks rfl) trivial

theorem moved_sweepAfter {query : Query} {phase : ReadPhase} (h : s.Moved t) :
    s.Moved (t.sweepAfter query phase) := by
  unfold sweepAfter
  split
  · exact h.spawn trivial
  · exact h

theorem moved_cancel (s : Service) (id : Nat) : s.Moved (s.cancel id) := by
  unfold cancel
  split
  · next w h => exact (Moved.of_tasks rfl).setTask h (.cancel w)
  · next p h => exact (Moved.of_tasks rfl).setTask h (.aside trivial trivial)
  · exact .of_tasks rfl

theorem moved_drop (s : Service) (id : Nat) : s.Moved (s.drop id) := by
  unfold drop
  split
  · next w h =>
    split
    · exact .of_tasks rfl
    · have hgone : s.Moved (s.setTask id .gone) := (Moved.of_tasks rfl).setTask h (.gone _)
      split
      · exact ⟨hgone.next, hgone.fresh⟩
      · exact ⟨hgone.next, hgone.fresh⟩
      · exact hgone
  · next w h =>
    have hloop : s.Moved (s.setTask w.ticker .gone) := by
      cases hk : s.tasks[w.ticker]? with
      | none =>
        refine .of_tasks ?_
        rw [setTask, Array.setIfInBounds_eq_of_size_le (Array.getElem?_eq_none_iff.1 hk)]
      | some u => exact (Moved.of_tasks rfl).setTask hk (.gone u)
    exact hloop.setTask h (.gone _)
  · next h => exact (Moved.of_tasks rfl).setTask h (.gone _)
  · exact .of_tasks rfl

theorem moved_advanceWrite {id : Nat} {w : Write} (h : s.tasks[id]? = some (.write w))
    (a : Answer) : s.Moved (s.advanceWrite id w a) := by
  have hto : ∀ {t : Service} (v : Write), t.tasks = s.tasks → s.Moved (t.setTask id (.write v)) :=
    fun v ht => (Moved.of_tasks ht).setTask h (.write w v)
  unfold advanceWrite
  dsimp only
  split
  · cases a with
    | waiting => exact .of_tasks rfl
    | failed f => exact hto _ rfl
    | done => exact hto _ rfl
  · split
    · exact hto _ rfl
    · exact hto _ rfl
  · cases a with
    | waiting => exact .of_tasks rfl
    | failed f => exact hto _ rfl
    | done => exact hto _ rfl
  · split
    · exact hto _ rfl
    · exact hto _ rfl
  · exact .of_tasks rfl

theorem moved_advanceRead {id : Nat} {r : Read} (h : s.tasks[id]? = some (.read r))
    (a : Answer) : s.Moved (s.advanceRead id r a) := by
  unfold advanceRead
  split
  · exact .of_tasks rfl
  · exact moved_sweepAfter ((Moved.of_tasks rfl).setTask h (.read r a))

theorem moved_advanceTicker {id : Nat} {k : Ticker} (h : s.tasks[id]? = some (.ticker k))
    (a : Answer) : s.Moved (s.advanceTicker id k a) := by
  unfold advanceTicker
  split
  · have hfetch := (Moved.of_tasks (s := s) rfl).setTask h (.fetch k a)
    unfold Ticker.fetch at hfetch
    dsimp only at hfetch ⊢
    cases hread : k.read.step k.query s.store s.clock s.wall a with
    | finished r =>
      rw [hread] at hfetch
      exact moved_sweepAfter hfetch
    | _ =>
      rw [hread] at hfetch
      exact hfetch
  · exact (Moved.of_tasks rfl).setTask h (.tick k)

theorem moved_advanceWaiter {id : Nat} {w : Waiter} (h : s.tasks[id]? = some (.waiter w)) :
    s.Moved (s.advanceWaiter id w) := by
  unfold advanceWaiter
  dsimp only
  split
  · exact .of_tasks rfl
  · split
    · next k hk =>
      have hloop : s.Moved (s.setTask w.ticker .gone) := (Moved.of_tasks rfl).setTask hk (.gone _)
      split
      · next r hr => exact hloop.setTask h (.answer hk hr)
      · split
        · exact hloop.setTask h (.giveUp w)
        · exact .of_tasks rfl
    · exact .of_tasks rfl

theorem moved_advanceProbe {id : Nat} {p : Probe} (h : s.tasks[id]? = some (.probe p))
    (a : Answer) : s.Moved (s.advanceProbe id p a) := by
  have hto : ∀ v : Probe, s.Moved (s.setTask id (.probe v)) :=
    fun v => (Moved.of_tasks rfl).setTask h (.aside trivial trivial)
  unfold advanceProbe
  dsimp only
  split
  · exact .of_tasks rfl
  · exact hto _
  · exact hto _
  · split
    · exact hto _
    · exact .of_tasks rfl

theorem moved_advanceDrain {id : Nat} {d : Drain} (h : s.tasks[id]? = some (.drain d)) :
    s.Moved (s.advanceDrain id d) := by
  have hto : ∀ v : Drain, s.Moved (s.setTask id (.drain v)) :=
    fun v => (Moved.of_tasks rfl).setTask h (.aside trivial trivial)
  unfold advanceDrain
  dsimp only
  split
  · exact .of_tasks rfl
  · split
    · exact hto _
    · split
      · exact hto _
      · exact .of_tasks rfl

theorem moved_advancePurger {id : Nat} {p : Purger} (h : s.tasks[id]? = some (.purger p))
    (a : Answer) : s.Moved (s.advancePurger id p a) := by
  have hto : ∀ {t : Service} (v : Purger), t.tasks = s.tasks → s.Moved (t.setTask id (.purger v)) :=
    fun v ht => (Moved.of_tasks ht).setTask h (.aside trivial trivial)
  unfold advancePurger
  dsimp only
  split
  · exact hto _ rfl
  · split
    · exact hto _ rfl
    · split
      · exact .of_tasks rfl
      · exact hto _ rfl
  · cases a with
    | waiting => exact .of_tasks rfl
    | failed f => exact hto _ rfl
    | done => exact hto _ rfl
  · exact .of_tasks rfl
  · exact .of_tasks rfl

theorem moved_advance (s : Service) (id : Nat) (a : Answer) : s.Moved (s.advance id a) := by
  unfold advance
  split
  · next w h => exact moved_advanceWrite h a
  · next r h => exact moved_advanceRead h a
  · next key h =>
    cases a with
    | waiting => exact .of_tasks rfl
    | failed f => exact (Moved.of_tasks rfl).setTask h (.aside trivial trivial)
    | done => exact Moved.setTask (.of_tasks rfl) h (.aside trivial trivial)
  · next k h => exact moved_advanceTicker h a
  · next w h => exact moved_advanceWaiter h
  · next p h => exact moved_advanceProbe h a
  · next d h => exact moved_advanceDrain h
  · next p h => exact moved_advancePurger h a
  · exact .of_tasks rfl

theorem moved_move (s : Service) {m : Move} (hm : ∀ r cancelled, m ≠ .poll r cancelled) :
    s.Moved (s.move m) := by
  cases m with
  | publish r =>
    rw [move_publish]
    split
    · next d _ => exact moved_submit s d
    · exact .of_tasks rfl
  | poll r cancelled => exact absurd rfl (hm r cancelled)
  | probe => exact (Moved.of_tasks rfl).spawn trivial
  | shutdown => exact Moved.spawn (.of_tasks rfl) trivial
  | purgeEvery interval => exact (Moved.of_tasks rfl).spawn trivial
  | advance id a => exact moved_advance s id a
  | cancel id => exact moved_cancel s id
  | drop id => exact moved_drop s id
  | elapse millis => exact .of_tasks rfl
  | skew micros => exact .of_tasks rfl

/-! ## Polls -/

theorem poll?_plain {r : PollRequest} (h : r.longPoll = false) (cancelled : Bool) :
    s.poll? r cancelled =
      some (s.spawn (.read ⟨r.query s.settings, (r.query s.settings).start⟩), s.tasks.size) := by
  simp [poll?, h]

theorem of_poll? {r : PollRequest} {cancelled : Bool} {id : Nat}
    (h : s.poll? r cancelled = some (t, id)) :
    id = s.tasks.size ∧
      ((r.longPoll = false ∧ t = s.spawn (.read ⟨r.query s.settings, (r.query s.settings).start⟩)) ∨
        (r.longPoll = true ∧
          t = (s.spawn (.waiter ⟨r.query s.settings, s.tasks.size + 1, cancelled, none⟩)).spawn
            (.ticker ⟨r.query s.settings,
              s.now * Duration.perMilli + s.settings.longPollTimeout.nanoseconds, .starting,
              (r.query s.settings).start⟩))) := by
  cases hl : r.longPoll with
  | false =>
    rw [poll?_plain hl] at h
    cases h
    exact ⟨rfl, .inl ⟨rfl, rfl⟩⟩
  | true =>
    unfold poll? LongPoll.deadline? at h
    rw [if_pos hl] at h
    split at h
    · cases h
      exact ⟨rfl, .inr ⟨rfl, rfl⟩⟩
    · cases h

theorem size_spawn (s : Service) (v : Task) : (s.spawn v).tasks.size = s.tasks.size + 1 :=
  Array.size_push _

theorem spawn_of_size {i : Nat} (h : i = s.tasks.size) (v : Task) :
    (s.spawn v).tasks[i]? = some v := by
  rw [spawn_getElem?, if_pos h]

theorem spawn_of_getElem? {i : Nat} {u : Task} (h : s.tasks[i]? = some u) (v : Task) :
    (s.spawn v).tasks[i]? = some u := by
  rw [spawn_getElem?, if_neg (Nat.ne_of_lt (lt_size_of_getElem? h)), h]

theorem next_poll? {r : PollRequest} {cancelled : Bool} {id : Nat}
    (h : s.poll? r cancelled = some (t, id)) {i : Nat} {u : Task} (hu : s.tasks[i]? = some u) :
    t.tasks[i]? = some u := by
  obtain ⟨-, ⟨-, rfl⟩ | ⟨-, rfl⟩⟩ := of_poll? h
  · exact spawn_of_getElem? hu _
  · exact spawn_of_getElem? (spawn_of_getElem? hu _) _

/-- **No move takes a task away**: it is left as it was, goes one step further, or is left by its
caller. -/
theorem next_move (s : Service) (m : Move) {i : Nat} {u : Task} (hu : s.tasks[i]? = some u) :
    ∃ v, (s.move m).tasks[i]? = some v ∧ u.Next s v := by
  by_cases hm : ∃ r cancelled, m = .poll r cancelled
  · obtain ⟨r, cancelled, rfl⟩ := hm
    refine ⟨u, ?_, .stay u⟩
    simp only [move]
    split
    · next after id h => exact next_poll? h hu
    · exact hu
  · have hmoved := moved_move s (m := m) fun r cancelled h => hm ⟨r, cancelled, h⟩
    exact hmoved.next i u hu

theorem start_of_move (s : Service) (m : Move) {i : Nat} {v : Task} (hnone : s.tasks[i]? = none)
    (hv : (s.move m).tasks[i]? = some v) {q : Query} {phase : ReadPhase}
    (hread : v.read? = some (q, phase)) :
    phase = q.start ∧ ∃ p : PollRequest, q = p.query s.settings := by
  have hfresh : v.IsFresh s.settings →
      phase = q.start ∧ ∃ p : PollRequest, q = p.query s.settings := by
    intro h
    cases v with
    | read r =>
      cases hread
      exact h
    | ticker t =>
      cases hread
      exact h
    | _ => cases hread
  by_cases hm : ∃ r cancelled, m = .poll r cancelled
  · obtain ⟨r, cancelled, rfl⟩ := hm
    simp only [move] at hv
    split at hv
    · next t id hp =>
      obtain ⟨-, ⟨-, rfl⟩ | ⟨-, rfl⟩⟩ := of_poll? hp
      · rw [spawn_getElem?] at hv
        split at hv
        · cases hv
          exact hfresh ⟨rfl, r, rfl⟩
        · rw [hnone] at hv
          cases hv
      · rw [spawn_getElem?, spawn_getElem?] at hv
        split at hv
        · cases hv
          exact hfresh ⟨rfl, r, rfl⟩
        · split at hv
          · cases hv
            cases hread
          · rw [hnone] at hv
            cases hv
    · rw [hnone] at hv
      cases hv
  · exact hfresh ((moved_move s fun r cancelled h => hm ⟨r, cancelled, h⟩).fresh i v hnone hv)

/-! ## Callers and loops -/

end Service

def Task.IsLoop : Task → Prop
  | .ticker _ | .gone => True
  | _ => False

theorem Task.IsLoop.next {s : Service} {u v : Task} (hu : u.IsLoop) (h : u.Next s v) :
    v.IsLoop := by
  cases h with
  | stay => exact hu
  | gone => trivial
  | aside ht => cases u <;> first | exact hu.elim | exact ht.elim
  | fetch => trivial
  | tick => trivial
  | write => exact hu.elim
  | read => exact hu.elim
  | cancel => exact hu.elim
  | answer => exact hu.elim
  | giveUp => exact hu.elim

theorem Task.Next.eq_waiter {s : Service} {u : Task} {w : Waiter} (h : u.Next s (.waiter w)) :
    ∃ w' : Waiter, u = .waiter w' ∧ w'.ticker = w.ticker := by
  cases h with
  | stay => exact ⟨w, rfl, rfl⟩
  | aside _ hu => exact hu.elim
  | cancel w' => exact ⟨w', rfl, rfl⟩
  | answer => exact ⟨_, rfl, rfl⟩
  | giveUp w' => exact ⟨w', rfl, rfl⟩

namespace Service

variable {s t : Service}

/-- The caller of each long poll knows where its loop is. -/
def Linked (s : Service) : Prop :=
  ∀ (i : Nat) (w : Waiter), s.tasks[i]? = some (.waiter w) →
    ∃ u, s.tasks[w.ticker]? = some u ∧ u.IsLoop

theorem Linked.moved (h : s.Linked) (hm : s.Moved t) : t.Linked := by
  intro i w hw
  cases hi : s.tasks[i]? with
  | none => exact (hm.fresh i _ hi hw).elim
  | some u =>
    obtain ⟨v, hv, hnext⟩ := hm.next i u hi
    rw [hw] at hv
    cases hv
    obtain ⟨w', rfl, hticker⟩ := hnext.eq_waiter
    obtain ⟨k, hk, hloop⟩ := h i w' hi
    obtain ⟨k', hk', hnext'⟩ := hm.next _ k hk
    exact ⟨k', hticker ▸ hk', hloop.next hnext'⟩

theorem Linked.poll? (h : s.Linked) {r : PollRequest} {cancelled : Bool} {id : Nat}
    (hp : s.poll? r cancelled = some (t, id)) : t.Linked := by
  obtain ⟨-, ⟨-, rfl⟩ | ⟨-, rfl⟩⟩ := of_poll? hp
  · exact h.moved ((Moved.of_tasks rfl).spawn ⟨rfl, r, rfl⟩)
  · intro i w hw
    rw [spawn_getElem?, spawn_getElem?] at hw
    split at hw
    · cases hw
    · split at hw
      · cases hw
        exact ⟨.ticker _, spawn_of_size (size_spawn s _).symm _, trivial⟩
      · obtain ⟨u, hu, hloop⟩ := h i w hw
        exact ⟨u, spawn_of_getElem? (spawn_of_getElem? hu _) _, hloop⟩

theorem Linked.move (h : s.Linked) (m : Move) : (s.move m).Linked := by
  by_cases hm : ∃ r cancelled, m = .poll r cancelled
  · obtain ⟨r, cancelled, rfl⟩ := hm
    simp only [Service.move]
    split
    · next after id hp => exact h.poll? hp
    · exact h
  · exact h.moved (moved_move s fun r cancelled he => hm ⟨r, cancelled, he⟩)

theorem start?_eq_some {settings : QueueSettings} {ids : Nat → Uuid} {wall : Score}
    (h : start? settings ids wall = some s) :
    ∃ slots, s = { settings, ids, slots, wall } := by
  obtain ⟨slots, -, rfl⟩ := Option.map_eq_some_iff.1 h
  exact ⟨slots, rfl⟩

theorem linked_start? {settings : QueueSettings} {ids : Nat → Uuid} {wall : Score}
    (h : start? settings ids wall = some s) : s.Linked := by
  obtain ⟨slots, rfl⟩ := start?_eq_some h
  intro i w hw
  simp at hw

/-! ## A sample -/

/-- Ids that repeat after the sixteenth. -/
def sampleIds (n : Nat) : Uuid := ⟨List.replicate Uuid.digitCount (n % 16)⟩

def sample (settings : QueueSettings) (wall : Score) : Service :=
  { settings, ids := sampleIds, slots := { capacity := settings.writeSlots }, wall }

theorem start?_sample {settings : QueueSettings} (h : settings.writeSlots ≤ Slots.maxCapacity)
    (wall : Score) : start? settings sampleIds wall = some (sample settings wall) := by
  rw [start?, Slots.ofCapacity?, if_pos h]
  rfl

end Service

end NotificationQueue
