import NotificationQueue.Proofs.Service.Changes
import NotificationQueue.Proofs.Service.Horizon
import Mathlib.Data.List.Induction

/-!
Polls for events of one type. A read fetches two pages at most and keeps a page of what has the
type. That is enough while each append to the queue has been followed by a trim: the queue is then
no longer than what is fetched.
-/
namespace NotificationQueue
set_option autoImplicit false

/-! ## What a read asks for -/

/-- Where a cursor tells to read from: right above its event, if that is in the queue. -/
def Query.lowerBound (q : Query) (store : Store) (wall : Score) : Option Score :=
  ((cursorOf q.cursor).bind Uuid.read?).bind fun id =>
    (store.find? q.subject.key id wall).map fun e => Score.succ e.score

namespace Service

variable {s : Service} {ms : List Move} {q : Query} {phase : ReadPhase}

/-- Where a read stands that has looked for its cursor, and then at the horizon, during a run. -/
def Asks (s : Service) (ms : List Move) (q : Query) : ReadPhase → Prop
  | .locating id => (cursorOf q.cursor).bind Uuid.read? = some id
  | .bounding least =>
    ∃ seek, seek <+: ms ∧ q.lowerBound (s.run seek).store (s.run seek).wall = least
  | .ranging least horizon =>
    ∃ seek look, seek <+: look ∧ look <+: ms ∧
      q.lowerBound (s.run seek).store (s.run seek).wall = least ∧
      (s.run look).clock.horizon (s.run look).wall = horizon
  | .finished _ => True

theorem asks_start (s : Service) (ms : List Move) (q : Query) : s.Asks ms q q.start := by
  unfold Query.start
  split
  · next id h => exact h
  · next h => exact ⟨[], List.nil_prefix, by rw [Query.lowerBound, h, Option.bind_none]⟩

theorem Asks.later (h : s.Asks ms q phase) (m : Move) : s.Asks (ms ++ [m]) q phase := by
  have hlater : ms <+: ms ++ [m] := List.prefix_append ms [m]
  cases phase with
  | locating id => exact h
  | bounding least =>
    obtain ⟨seek, hseek, hleast⟩ := h
    exact ⟨seek, hseek.trans hlater, hleast⟩
  | ranging least horizon =>
    obtain ⟨seek, look, hseek, hlook, hbounds⟩ := h
    exact ⟨seek, look, hseek, hlook.trans hlater, hbounds⟩
  | finished r => trivial

theorem Asks.step (h : s.Asks ms q phase) (a : Answer) :
    s.Asks ms q (phase.step q (s.run ms).store (s.run ms).clock (s.run ms).wall a) := by
  cases phase with
  | locating id =>
    cases a with
    | waiting => exact h
    | failed f => trivial
    | done =>
      have hid : (cursorOf q.cursor).bind Uuid.read? = some id := h
      exact ⟨ms, List.prefix_refl ms, by rw [Query.lowerBound, hid, Option.bind_some]⟩
  | bounding least =>
    obtain ⟨seek, hseek, hleast⟩ := h
    exact ⟨seek, ms, hseek, List.prefix_refl ms, hleast, rfl⟩
  | ranging least horizon =>
    cases a with
    | waiting => exact h
    | failed f => trivial
    | done => trivial
  | finished r => trivial

/-- **Every read of a service asks for a page**, from where its cursor told to read to a horizon
that it read later. -/
theorem asks_run (hnew : s.tasks = #[]) (ms : List Move) {id : Nat} {u : Task}
    (hu : (s.run ms).tasks[id]? = some u) (hread : u.read? = some (q, phase)) :
    (∃ p : PollRequest, q = p.query s.settings) ∧ s.Asks ms q phase := by
  induction ms using List.reverseRecOn generalizing u phase with
  | nil =>
    rw [run, List.foldl_nil, hnew] at hu
    cases hu
  | append_singleton ms m ih =>
    rw [run_append] at hu
    change ((s.run ms).move m).tasks[id]? = some u at hu
    cases ht : (s.run ms).tasks[id]? with
    | none =>
      obtain ⟨rfl, p, rfl⟩ := start_of_move _ m ht hu hread
      rw [settings_run]
      exact ⟨⟨p, rfl⟩, asks_start s _ _⟩
    | some t =>
      obtain ⟨v, hv, hnext⟩ := next_move _ m ht
      rw [hu] at hv
      cases hv
      obtain ⟨before, hbefore, hphase⟩ := read?_of_next hnext hread
      obtain ⟨hpage, hasks⟩ := ih ht hbefore
      refine ⟨hpage, ?_⟩
      rcases hphase with rfl | ⟨a, rfl⟩ | rfl
      · exact hasks.later m
      · exact (hasks.step a).later m
      · exact asks_start s _ q

end Service

/-! ## Ranges of short queues -/

/-- The live events of a queue that have a type, from a lower bound, or from the start, up to a
horizon. -/
def Store.matching (s : Store) (key : String) (type : EventType) (least : Option Score)
    (horizon : Score) (wall : Score) : List Event :=
  (((s.liveEntries key wall).filter fun e =>
    least.all (· ≤ e.score) && e.score ≤ horizon).map Entry.event).filter (·.type = type)

namespace Query

variable {q : Query} {type : EventType} {store : Store} {wall horizon : Score}
  {least : Option Score}

theorem filter_between (hpos : ∀ e ∈ store.entries q.subject.key, 0 < e.score) :
    ((q.between store wall least horizon).map Entry.event).filter (·.type = type) =
      store.matching q.subject.key type least horizon wall := by
  have hleast : ∀ e ∈ store.entries q.subject.key, Score.least ≤ e.score := by
    intro e he
    have he0 := hpos e he
    unfold Score.least
    lia
  rw [between_eq hleast, Store.matching]

theorem fetchLimit_eq_most (ht : q.type = some type) (hlimit : q.limit ≤ Text.maxWord64) :
    q.fetchLimit = Queue.most q.limit := by
  rw [fetchLimit, ht, Queue.most_eq hlimit]
  rfl

/-- **A queue that has been trimmed gives a full page of a type**, or all that is left of it. -/
theorem ranged_of_trimmed (ht : q.type = some type) (hlimit : q.limit ≤ Text.maxWord64)
    (hshort : (store.entries q.subject.key).length ≤ Queue.most q.limit)
    (hpos : ∀ e ∈ store.entries q.subject.key, 0 < e.score) :
    let all := store.matching q.subject.key type least horizon wall
    (q.ranged store wall least horizon).events = all.take q.limit ∧
      ((q.ranged store wall least horizon).hasMore = false →
        (q.ranged store wall least horizon).events = all) := by
  intro all
  have hfetched : (q.between store wall least horizon).length ≤ q.fetchLimit := by
    have hle : (q.between store wall least horizon).length ≤
        (store.entries q.subject.key).length := between_sublist.length_le
    rw [fetchLimit_eq_most ht hlimit]
    omega
  have hall : all.length ≤ q.fetchLimit := by
    have hle := List.length_filter_le (fun e : Event => decide (e.type = type))
      ((q.between store wall least horizon).map Entry.event)
    rw [filter_between hpos, List.length_map] at hle
    exact Nat.le_trans hle hfetched
  have hevents : (q.ranged store wall least horizon).events = all.take q.limit := by
    rw [ranged, List.take_of_length_le hfetched, batch, Batch.ofEvents, select, ht]
    exact congrArg (List.take q.limit) (filter_between hpos)
  refine ⟨hevents, fun hmore => ?_⟩
  rw [hevents]
  refine List.take_of_length_le ?_
  have hlength := congrArg List.length hevents
  rw [List.length_take] at hlength
  have hmore' : (0 < q.limit && (q.ranged store wall least horizon).events.length = q.limit) =
      false := hmore
  simp only [Bool.and_eq_false_iff, decide_eq_false_iff_not] at hmore'
  rcases hmore' with hzero | hpartial
  · -- There is nothing to fetch, and nothing in the queue either.
    have hnone : q.fetchLimit = 0 := by
      rw [fetchLimit, ht]
      simp only [overfetch]
      omega
    omega
  · omega

end Query

/-! ## Answers of polls -/

namespace Service

variable {s : Service} {id : Nat} {q : Query} {least : Option Score} {horizon : Score}

/-- A batch answers who polls by a task: a plain poll after the next step of the task, and a long
poll, unless the batch is empty, when its caller looks after that. -/
def Answers (s : Service) (id : Nat) (b : Batch) : Task → Prop
  | .read _ =>
    (s.advance id .done).pollResult? id = some (.ok (PollResponse.ofBatch s.settings b false))
  | .ticker _ =>
    b.events ≠ [] → ∀ i w, s.tasks[i]? = some (.waiter w) → w.ticker = id → w.result = none →
      ((s.advance id .done).advance i .waiting).pollResult? i =
        some (.ok (PollResponse.ofBatch s.settings b true))
  | _ => False

def Hands (s : Service) (id : Nat) (u : Task) (q : Query) (b : Batch) : Prop :=
  (s.advance id .done).tasks[id]?.bind Task.read? = some (q, .finished (.ok b)) ∧
    s.Answers id b u

theorem advance_read {r : Read} (hr : s.tasks[id]? = some (.read r))
    (hphase : r.phase = .ranging least horizon) :
    s.advance id .done = (s.setTask id (.read { r with
      phase := .finished (.ok (r.query.ranged s.store s.wall least horizon)) })).sweep
        r.query.subject.key := by
  have hstep := ReadPhase.step_ranging_done r.query s.store s.clock s.wall least horizon
  simp only [advance, hr, advanceRead, hphase, hstep, sweepAfter]

theorem advance_ticker {t : Ticker} {next : Nat} (ht : s.tasks[id]? = some (.ticker t))
    (hloop : t.loop = .fetching next) (hphase : t.read = .ranging least horizon) :
    s.advance id .done = (s.setTask id (.ticker { t with
      loop := t.loop.fetched (.batch (t.query.ranged s.store s.wall least horizon))
      read := .finished (.ok (t.query.ranged s.store s.wall least horizon)) })).sweep
        t.query.subject.key := by
  have hstep := ReadPhase.step_ranging_done t.query s.store s.clock s.wall least horizon
  simp only [advance, ht, advanceTicker, hloop, hphase, hstep, sweepAfter, yieldOf]

theorem pollResult?_advance_read {r : Read} (hr : s.tasks[id]? = some (.read r))
    (hphase : r.phase = .ranging least horizon) :
    (s.advance id .done).pollResult? id = some (.ok (PollResponse.ofBatch s.settings
      (r.query.ranged s.store s.wall least horizon) false)) := by
  have hanswer : (s.advance id .done).tasks[id]? = some (.read { r with
      phase := .finished (.ok (r.query.ranged s.store s.wall least horizon)) }) := by
    rw [advance_read hr hphase]
    exact spawn_of_getElem? (setTask_of_getElem? hr _) _
  have hsettings := (s.changed_advance id .done).settings
  simp only [pollResult?, hanswer, hsettings, ReadPhase.result?, Option.map_some, Except.map]

theorem pollResult?_advance_waiter {i : Nat} {w : Waiter} {t : Ticker} {b : Batch}
    (hw : s.tasks[i]? = some (.waiter w)) (hnone : w.result = none)
    (ht : s.tasks[w.ticker]? = some (.ticker t)) (hloop : t.loop = .handed (.ok (.ready b)))
    (a : Answer) : (s.advance i a).pollResult? i =
      some (.ok (PollResponse.ofBatch s.settings b true)) := by
  have hne : i ≠ w.ticker := by
    rintro rfl
    rw [hw] at ht
    cases ht
  have hstep : s.advance i a = (s.setTask w.ticker .gone).setTask i
      (.waiter { w with result := some (.ok (.ready b)) }) := by
    simp only [advance, hw, advanceWaiter, hnone, ht, hloop, LongPoll.Loop.result?]
  have hstill : (s.setTask w.ticker .gone).tasks[i]? = some (.waiter w) := by
    rw [setTask_getElem?, if_neg hne, hw]
  have hanswer : (s.advance i a).tasks[i]? =
      some (.waiter { w with result := some (.ok (.ready b)) }) := by
    rw [hstep]
    exact setTask_of_getElem? hstill _
  have hsettings := (s.changed_advance i a).settings
  simp only [pollResult?, hanswer, hsettings, Option.map_some, Except.map]

theorem pollResult?_advance_ticker {i next : Nat} {t : Ticker} {w : Waiter}
    (ht : s.tasks[id]? = some (.ticker t)) (hloop : t.loop = .fetching next)
    (hphase : t.read = .ranging least horizon)
    (hsome : (t.query.ranged s.store s.wall least horizon).events ≠ [])
    (hw : s.tasks[i]? = some (.waiter w)) (hticker : w.ticker = id) (hnone : w.result = none)
    (a : Answer) :
    ((s.advance id .done).advance i a).pollResult? i = some (.ok (PollResponse.ofBatch s.settings
      (t.query.ranged s.store s.wall least horizon) true)) := by
  have hstep := advance_ticker ht hloop hphase
  have hfetched : t.loop.fetched (.batch (t.query.ranged s.store s.wall least horizon)) =
      .handed (.ok (.ready (t.query.ranged s.store s.wall least horizon))) := by
    simp [hloop, LongPoll.Loop.fetched, Batch.isEmpty, hsome]
  rw [hfetched] at hstep
  have hne : i ≠ id := by
    rintro rfl
    rw [hw] at ht
    cases ht
  have hwaiter : (s.advance id .done).tasks[i]? = some (.waiter w) := by
    rw [hstep]
    refine spawn_of_getElem? ?_ _
    rw [setTask_getElem?, if_neg hne, hw]
  have hhanded : (s.advance id .done).tasks[w.ticker]? = some (.ticker { t with
      loop := .handed (.ok (.ready (t.query.ranged s.store s.wall least horizon)))
      read := .finished (.ok (t.query.ranged s.store s.wall least horizon)) }) := by
    rw [hstep, hticker]
    exact spawn_of_getElem? (setTask_of_getElem? ht _) _
  have hresult := pollResult?_advance_waiter hwaiter hnone hhanded rfl a
  have hsettings := (s.changed_advance id .done).settings
  rwa [hsettings] at hresult

/-- **A range read hands its batch over** to whoever polls. -/
theorem hands_ranged {u : Task} (hu : s.tasks[id]? = some u) (hcall : u.call? = some .range)
    (hread : u.read? = some (q, .ranging least horizon)) :
    s.Hands id u q (q.ranged s.store s.wall least horizon) := by
  cases u with
  | read r =>
    obtain ⟨rfl, hphase⟩ := Prod.mk.inj (Option.some.inj hread)
    refine ⟨?_, pollResult?_advance_read hu hphase⟩
    rw [advance_read hu hphase, sweep, spawn_of_getElem? (setTask_of_getElem? hu _)]
    rfl
  | ticker t =>
    obtain ⟨rfl, hphase⟩ := Prod.mk.inj (Option.some.inj hread)
    obtain ⟨next, hloop⟩ : ∃ next, t.loop = .fetching next := by
      cases hl : t.loop with
      | fetching next => exact ⟨next, rfl⟩
      | _ => simp [Task.call?, hl] at hcall
    refine ⟨?_, fun hsome i w hw hticker hnone =>
      pollResult?_advance_ticker hu hloop hphase hsome hw hticker hnone .waiting⟩
    rw [advance_ticker hu hloop hphase, sweep, spawn_of_getElem? (setTask_of_getElem? hu _)]
    rfl
  | _ => cases hread

/-! ## Full pages -/

variable {s₀ : Service} {settings : QueueSettings} {ids : Nat → Uuid} {wall : Score}

/-- **A poll for one type is answered by the first page of that type**, among all live events from
where its cursor told to read up to the horizon that it read, and tells that there is no more only
if there is none: whenever each append to the queue has been followed by a trim. -/
theorem filtered_complete (hstart : start? settings ids wall = some s₀)
    (hpage : settings.pageSize ≤ Text.maxWord64) (ms : List Move) {u : Task} {type : EventType}
    (hu : (s₀.run ms).tasks[id]? = some u) (hcall : u.call? = some .range)
    (hread : u.read? = some (q, .ranging least horizon)) (htype : q.type = some type)
    (htrimmed : Store.untrimmed q.subject.key (s₀.changes ms) = 0) :
    let s := s₀.run ms
    let all := s.store.matching q.subject.key type least horizon s.wall
    s₀.Asks ms q (.ranging least horizon) ∧
      ∃ b : Batch, s.Hands id u q b ∧ b.events = all.take settings.pageSize ∧
        (b.hasMore = false → b.events = all) := by
  intro s all
  have hstamped : s.core.Stamped := stamped_run (stamped_start? hstart) (linked_start? hstart) ms
  have hnew : s₀.settings = settings ∧ s₀.store = {} ∧ s₀.tasks = #[] := by
    obtain ⟨slots, rfl⟩ := start?_eq_some hstart
    exact ⟨rfl, rfl, rfl⟩
  obtain ⟨rfl, hstore, htasks⟩ := hnew
  obtain ⟨⟨p, hp⟩, hasks⟩ := asks_run htasks ms hu hread
  have hlimit : q.limit = s₀.settings.pageSize := by
    rw [hp]
    rfl
  have hsound : s₀.store.Sound := hstore ▸ Store.sound_empty
  have hempty : s₀.store.entries q.subject.key = [] := by
    rw [hstore]
    rfl
  have hshort := length_entries_run_le hsound hempty ms
  rw [htrimmed, Nat.add_zero] at hshort
  rw [← hlimit] at hpage hshort ⊢
  exact ⟨hasks, _, hands_ranged hu hcall hread,
    Query.ranged_of_trimmed htype hpage hshort (hstamped.entry_pos _)⟩

theorem ranging_of_poll (s : Service) {p : PollRequest} (hplain : p.longPoll = false)
    (hstart : (p.query s.settings).start = .bounding none) (cancelled : Bool) :
    (s.run [.poll p cancelled, .advance s.tasks.size .done]).tasks[s.tasks.size]? =
      some (.read ⟨p.query s.settings, .ranging none (s.clock.horizon s.wall)⟩) := by
  have hpoll : s.move (.poll p cancelled) =
      s.spawn (.read ⟨p.query s.settings, .bounding none⟩) := by
    simp only [move, poll?_plain hplain, hstart]
  have hnew : (s.spawn (.read ⟨p.query s.settings, .bounding none⟩)).tasks[s.tasks.size]? =
      some (.read ⟨p.query s.settings, .bounding none⟩) := spawn_of_size rfl _
  have hstep : (s.spawn (.read ⟨p.query s.settings, .bounding none⟩)).advance s.tasks.size .done =
      (s.spawn (.read ⟨p.query s.settings, .bounding none⟩)).setTask s.tasks.size
        (.read ⟨p.query s.settings, .ranging none (s.clock.horizon s.wall)⟩) := by
    simp only [advance, hnew, advanceRead]
    rfl
  rw [run_cons, run_cons, hpoll]
  change ((s.spawn _).advance s.tasks.size .done).tasks[s.tasks.size]? = _
  rw [hstep]
  exact setTask_of_getElem? hnew _

def orderAndChange : List Move :=
  [.publish (.newOrder "a" "x" "1"), .advance 0 .done, .advance 0 .done, .advance 0 .done,
    .publish (.orderUpdate "b" "y" none), .advance 1 .done, .advance 1 .done, .advance 1 .done]

/-- A poll for changes gets the change behind the new order, though it asks for one event only. -/
theorem filtered_complete_behind_order :
    let s := (sample { pageSize := 1 } 1000).run (orderAndChange ++
      [.poll ⟨.admin, some .adminOrderUpdate, none, false⟩ false, .advance 2 .done])
    (s.store.entries Subject.admin.key).map (·.event.entityId) = ["a", "b"] ∧
      ∃ b : Batch, b.events.map (·.entityId) = ["b"] ∧
        (s.advance 2 .done).pollResult? 2 =
          some (.ok (PollResponse.ofBatch s.settings b false)) := by
  intro s
  have hu := ranging_of_poll ((sample { pageSize := 1 } 1000).run orderAndChange)
    (p := ⟨.admin, some .adminOrderUpdate, none, false⟩) rfl rfl false
  have hsize : ((sample { pageSize := 1 } 1000).run orderAndChange).tasks.size = 2 := by
    decide +kernel
  rw [hsize, ← run_append] at hu
  obtain ⟨-, b, hhands, hevents, -⟩ := filtered_complete (start?_sample (by decide) 1000)
    (by decide) _ hu rfl rfl rfl (by decide +kernel)
  refine ⟨by decide +kernel, b, ?_, hhands.2⟩
  rw [hevents]
  decide +kernel

end Service

end NotificationQueue
