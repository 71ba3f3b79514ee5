import NotificationQueue.Proofs.Service.Answers
import NotificationQueue.Proofs.Service.Written

/-!
What valid settings promise. A service can be started with them just if no pool of slots is larger
than theirs; no poll ends with an internal failure; and what has been written can be read at once
just if events are retained for a second at least.
-/
namespace NotificationQueue
set_option autoImplicit false

theorem QueueSettings.longPollTimeout_pos {settings : QueueSettings}
    (h : settings.validate = .ok ()) : 0 < settings.longPollTimeout.nanoseconds := by
  unfold validate at h
  repeat' split at h
  all_goals cases h
  omega

theorem Store.size_eq_length (s : Store) (key : String) (wall : Score) :
    s.size key wall = (s.liveEntries key wall).length := by
  unfold size liveEntries
  cases s.live? key wall <;> rfl

theorem Duration.seconds_pos_iff (d : Duration) : 0 < d.seconds ↔ perSecond ≤ d.nanoseconds := by
  unfold seconds perSecond
  omega

structure PollRequest.IsWhole (r : PollRequest) (subject : Subject) : Prop where
  subject : r.subject = subject
  type : r.type = none
  cursor : cursorOf r.lastEventId = none

/-- Where a read from the start has got to while everything stands still: it stops at a horizon, and
finds a batch. -/
def ReadPhase.Sweeps (horizon : Score) (b : Batch) : ReadPhase → Prop
  | .locating _ => False
  | .bounding least => least = none
  | .ranging least greatest => least = none ∧ greatest = horizon
  | .finished result => ∀ found, result = .ok found → found = b

namespace Service

variable {s t u : Service} {r : PollRequest} {subject : Subject} {n : Notice} {id : Nat}

theorem exists_start?_iff (settings : QueueSettings) (ids : Nat → Uuid) (wall : Score) :
    (∃ s, start? settings ids wall = some s) ↔ settings.writeSlots ≤ Slots.maxCapacity := by
  unfold start? Slots.ofCapacity?
  split
  · next hle => simpa using hle
  · next hgt => simpa using hgt

/-! ## Whole queues on a page -/

def whole (s : Service) (r : PollRequest) : Batch :=
  (r.query s.settings).ranged s.store s.wall none (s.clock.horizon s.wall)

theorem events_whole (hs : s.Reachable) (hpending : s.clock.pending = [])
    (hr : r.IsWhole subject)
    (hfew : s.store.size subject.key s.wall ≤ s.settings.pageSize) :
    (s.whole r).events = (s.store.liveEntries subject.key s.wall).map Entry.event := by
  have hall : ∀ x ∈ s.store.liveEntries subject.key s.wall,
      (decide (Score.least ≤ x.score) && decide (x.score ≤ s.clock.horizon s.wall)) = true := by
    intro x hx
    have hstored := (s.store.liveEntries_suffix _ _).subset hx
    obtain ⟨-, hlast, -⟩ := hs.stamped.entry subject.key x hstored
    have hlast' : x.score ≤ s.clock.last := hlast
    have hpos := hs.stamped.entry_pos subject.key x hstored
    rw [Clock.horizon_of_pending_eq_nil hpending]
    rw [Bool.and_eq_true, decide_eq_true_eq, decide_eq_true_eq]
    unfold Score.least
    lia
  have hbetween : (r.query s.settings).between s.store s.wall none (s.clock.horizon s.wall) =
      s.store.liveEntries subject.key s.wall := by
    rw [← hr.subject] at hall ⊢
    exact List.filter_eq_self.2 hall
  have hlimit : (r.query s.settings).fetchLimit = s.settings.pageSize := by
    show Query.fetchLimit ⟨_, r.type, _, _⟩ = _
    rw [hr.type]
    rfl
  have hselect : ∀ events, (r.query s.settings).select events = events := by
    intro events
    show Query.select ⟨_, r.type, _, _⟩ events = events
    rw [hr.type]
    rfl
  rw [Store.size_eq_length] at hfew
  show (r.query s.settings).select _ = _
  rw [hselect, hbetween, hlimit, List.take_of_length_le hfew]

/-! ## Polls alone -/

def AnswersAlone (s : Service) (r : PollRequest) (page : PollResponse) : Prop :=
  ∃ t id ms, s.poll? r false = some (t, id) ∧
    (∀ m ∈ ms, (m.pollTurn? id r.longPoll).isSome = true) ∧
    (t.run ms).pollResult? id = some (.ok page)

theorem now_run_of_turns {long : Bool} {ms : List Move}
    (hms : ∀ m ∈ ms, (m.pollTurn? id long).isSome = true) : (s.run ms).now = s.now := by
  induction ms generalizing s with
  | nil => rfl
  | cons m ms ih =>
    have hrest := ih (s := s.move m) fun m' hm' => hms m' (List.mem_cons_of_mem m hm')
    rcases s.now_move m with ⟨millis, rfl⟩ | hnow
    · cases hms _ List.mem_cons_self
    · rw [run_cons, hrest, hnow]

theorem start_of_whole (hr : r.IsWhole subject) (settings : QueueSettings) :
    (r.query settings).start = .bounding none := by
  unfold Query.start
  rw [PollRequest.query, hr.cursor]
  rfl

theorem events_of_answersAlone (hs : s.Reachable) (hvalid : s.settings.validate = .ok ())
    (hr : r.IsWhole subject) {page : PollResponse} (h : s.AnswersAlone r page) :
    page.events = (s.whole r).events := by
  obtain ⟨t, id, ms, hpoll, halone, hpage⟩ := h
  let horizon := s.clock.horizon s.wall
  let R : ReadPhase → Prop := ReadPhase.Sweeps horizon (s.whole r)
  let O : Except Failure WaitOutcome → Prop := fun result =>
    ∀ outcome, result = .ok outcome → outcome = .ready (s.whole r)
  have hbegun : R (r.query s.settings).start := by
    rw [start_of_whole hr]
    rfl
  have hstep : ∀ (u : Service) (read : ReadPhase) (a : Answer), u.core = s.core → R read →
      R (read.step (r.query s.settings) u.store u.clock u.wall a) := by
    intro u read a hcore hread
    have hstore : u.store = s.store := congrArg Core.store hcore
    have hclock : u.clock = s.clock := congrArg Core.clock hcore
    have hwall : u.wall = s.wall := congrArg Core.wall hcore
    rw [hstore, hclock, hwall]
    cases read with
    | locating id => exact hread.elim
    | bounding least =>
      obtain rfl : least = none := hread
      exact ⟨rfl, rfl⟩
    | ranging least greatest =>
      obtain ⟨rfl, rfl⟩ := hread
      cases a with
      | waiting => exact ⟨rfl, rfl⟩
      | failed f =>
        intro found hfound
        cases hfound
      | done =>
        rw [ReadPhase.step_ranging_done]
        intro found hfound
        exact (Except.ok.inj hfound).symm
    | finished result => exact hread
  have hdecided : ∀ x result, R (.finished x) → (yieldOf x).decides = some result → O result := by
    rintro x result hx hresult outcome rfl
    cases x with
    | error f => cases hresult
    | ok b =>
      simp only [yieldOf, LongPoll.Yield.decides] at hresult
      split at hresult
      · cases hresult
      · cases hresult
        rw [hx b rfl]
  -- Nobody else takes a turn, so that at each one the service is as it was, and no time has passed.
  have hanswer := pollResult?_of_rules (O := O) hs.paired hpoll hbegun (fun x hx => by
    obtain ⟨before, hbefore, hx'⟩ := exists_of_mem_seen hx
    have hturns := fun m hm => halone m (hbefore.subset hm)
    have hnow : x.2.now = s.now := by
      rw [hx', now_run_of_turns hturns, now_poll? hpoll]
    have hsettings : x.2.settings = s.settings := by
      rw [settings_of_mem_seen hx, settings_poll? hpoll]
    exact
      { begun := hbegun
        step := fun read a => hstep x.2 read a (hx' ▸ core_poll?_run hs.paired hpoll hturns)
        decided := hdecided
        late := fun hlate => by
          have htimeout := QueueSettings.longPollTimeout_pos hvalid
          rw [hsettings, hnow, Nat.sub_self, Nat.zero_mul] at hlate
          omega
        cancelled := fun outcome hok => by cases hok
        lost := fun hzero => by
          rw [hsettings, QueueSettings.isZero_tickInterval hvalid] at hzero
          cases hzero }) hpage
  rcases hanswer with ⟨x, hx, hfound⟩ | ⟨result, hresult, hfound⟩
  · cases x with
    | error f => cases hfound
    | ok b =>
      cases hfound
      rw [← hx b rfl]
      rfl
  · cases result with
    | error f => cases hfound
    | ok outcome =>
      cases hfound
      rw [hresult outcome rfl]
      rfl

theorem stands_alone {start : Nat} {q : Query} {read : ReadPhase} {c : Core} (hp : s.Paired)
    (hstart : start ≤ s.now) (hcore : s.core = c) (h : s.Stands id start false q (.plain read))
    (as : List Answer) : (s.run (as.map (.advance id))).Stands id start false q
      (.plain (as.foldl (·.step q c.store c.clock c.wall) read)) := by
  induction as generalizing s read with
  | nil => exact h
  | cons a as ih =>
    have hturn : PollTurn.isLoops (.caller a) = true → false = true := nofun
    have hnext := stands_turn hp hstart h hturn
    have hcore' := (core_turn hp.linked h hturn).1.trans hcore
    subst hcore
    exact ih (hp.move _) (hstart.trans (now_le_move s _)) hcore' hnext

theorem pollResult?_steps_alone (hs : s.Reachable) (hplain : r.longPoll = false)
    (h : s.poll? r false = some (t, id)) {as : List Answer} {b : Batch}
    (hsteps : as.foldl (·.step (r.query s.settings) s.store s.clock s.wall)
      (r.query s.settings).start = .finished (.ok b)) :
    (t.run (as.map (.advance id))).pollResult? id = some (.ok (.ofBatch s.settings b false)) := by
  have hstands := stands_poll? h
  rw [hplain, PollState.begin, if_neg Bool.false_ne_true] at hstands
  have hread := stands_alone (hs.paired.poll? h) (Nat.le_of_eq (now_poll? h).symm) (core_poll? h)
    hstands as
  have hend : (t.run (as.map (.advance id))).Stands id s.now false (r.query s.settings)
      (.plain (.finished (.ok b))) := hsteps ▸ hread
  rw [pollResult?_of_stands hend, settings_run, settings_poll? h]
  rfl

theorem answersAlone_of_steps (hs : s.Reachable) (hplain : r.longPoll = false) {as : List Answer}
    {b : Batch} (hsteps : as.foldl (·.step (r.query s.settings) s.store s.clock s.wall)
      (r.query s.settings).start = .finished (.ok b)) :
    s.AnswersAlone r (.ofBatch s.settings b false) := by
  obtain ⟨t, id, h⟩ : ∃ t id, s.poll? r false = some (t, id) := ⟨_, _, poll?_plain hplain false⟩
  refine ⟨t, id, _, h, fun m hm => ?_, pollResult?_steps_alone hs hplain h hsteps⟩
  obtain ⟨a, -, rfl⟩ := List.mem_map.1 hm
  simp

theorem steps_of_whole (s : Service) (hr : r.IsWhole subject) :
    [Answer.waiting, .done].foldl (·.step (r.query s.settings) s.store s.clock s.wall)
      (r.query s.settings).start = .finished (.ok (s.whole r)) := by
  rw [start_of_whole hr]
  exact ReadPhase.foldl_bounding _ s.store s.clock s.wall none

theorem pollResult?_plain_alone (hs : s.Reachable) (hr : r.IsWhole subject)
    (hplain : r.longPoll = false) (h : s.poll? r false = some (t, id)) :
    (t.run ([.waiting, .done].map (.advance id))).pollResult? id =
      some (.ok (.ofBatch s.settings (s.whole r) false)) :=
  pollResult?_steps_alone hs hplain h (steps_of_whole s hr)

theorem answersAlone_plain (hs : s.Reachable) (hr : r.IsWhole subject)
    (hplain : r.longPoll = false) :
    s.AnswersAlone r (.ofBatch s.settings (s.whole r) false) :=
  answersAlone_of_steps hs hplain (steps_of_whole s hr)

theorem answersAlone_long (hs : s.Reachable) (hvalid : s.settings.validate = .ok ())
    (hr : r.IsWhole subject) (hlong : r.longPoll = true)
    (hshort : s.settings.longPollTimeout.seconds ≤ LongPoll.maxTimeout)
    (hfound : (s.whole r).events ≠ []) : ∃ page, s.AnswersAlone r page := by
  let plain : PollRequest := { r with longPoll := false }
  have hsame : { plain with longPoll := true } = r := by
    cases r
    cases hlong
    rfl
  obtain ⟨t, id, h⟩ : ∃ t id, s.poll? plain false = some (t, id) := ⟨_, _, poll?_plain rfl false⟩
  obtain ⟨u, i, h'⟩ := (exists_long_poll_iff s plain false).2 hshort
  have hpage := pollResult?_plain_alone (r := plain) hs ⟨hr.subject, hr.type, hr.cursor⟩ rfl h
  have halike := fetchesAlike_alone hs.paired h h' (QueueSettings.longPollTimeout_pos hvalid)
    [.waiting, .done]
  have hfull (page : PollResponse) (hok : (.ok (.ofBatch s.settings (s.whole plain) false) :
      Except Failure PollResponse) = .ok page) : page.events ≠ [] := by
    cases hok
    exact hfound
  have hanswer := long_eq_plain hs.paired hvalid rfl h h' (fun y hy => givesUp_fetchTurns hy)
    halike hpage hfull .waiting
  rw [hsame] at h'
  refine ⟨_, u, i, _, h', fun m hm => ?_, hanswer⟩
  rw [hlong]
  rcases List.mem_append.1 hm with hloop | hcaller
  · obtain ⟨a, ha⟩ := pollTurn?_fetchTurns hloop
    exact congrArg Option.isSome ha
  · obtain rfl := List.mem_singleton.1 hcaller
    simp

/-! ## What is written alone -/

theorem mem_whole_iff {p : Publication} {ms : List Move} (hs : s.Reachable)
    (hpage : 0 < s.settings.pageSize) (hcal : s.wall ≤ Timestamp.latest.score) {q : PublishRequest}
    (hp : s.publish q = .ok (t, p)) (hn : s.posted? (.publish q) = some n)
    (h : t.WrittenAlone p ms) (hr : r.IsWhole n.subject)
    (hfew : (t.run ms).store.size n.subject.key (t.run ms).wall ≤ (t.run ms).settings.pageSize) :
    n.event ∈ ((t.run ms).whole r).events ↔
      Duration.perSecond ≤ (t.run ms).settings.retention.nanoseconds := by
  have hu : (t.run ms).Reachable := (hs.publish hp).run ms
  obtain ⟨hpending, sequence, hnewest⟩ := newest_of_written hs hpage hcal hp hn h
  rw [events_whole hu hpending hr hfew, ← Duration.seconds_pos_iff]
  constructor
  · intro hmem
    by_contra hnone
    rw [hnewest.lost (by omega)] at hmem
    cases hmem
  · intro hwhole
    have hwithin := hnewest.within hwhole
    have hlive := (hnewest.kept hwhole).mem_liveEntries
      (Instant.ofScore_lt_plusSeconds hwithin.calendar hwithin.deadline)
    exact List.mem_map_of_mem hlive

/-- **What valid settings promise.** A service starts with them just if they ask for no more slots
than a pool can have. However it is run, no poll ends with an internal failure, as long as the timer
can add its ticks. And a poll for all events of a subject finds what has been written alone at the
same reading of the wall clock, which the calendar can represent, if its queue fits on a page, just
if events are retained for a second at least. -/
theorem valid_settings_work_iff {settings : QueueSettings} (hvalid : settings.validate = .ok ()) :
    (∀ ids wall, (∃ s, start? settings ids wall = some s) ↔
      settings.writeSlots ≤ Slots.maxCapacity) ∧
    ∀ s : Service, s.Reachable → s.settings = settings →
      (∀ r cancelled t id ms reason, s.poll? r cancelled = some (t, id) →
        (t.run ms).pollResult? id ≠ some (.error (.internal reason))) ∧
      ∀ q t p n ms, s.wall ≤ Timestamp.latest.score → s.publish q = .ok (t, p) →
        s.posted? (.publish q) = some n → t.WrittenAlone p ms →
        (t.run ms).store.size n.subject.key (t.run ms).wall ≤ settings.pageSize →
        ∀ r : PollRequest, r.IsWhole n.subject →
          (∀ page, (t.run ms).AnswersAlone r page →
            (n.event ∈ page.events ↔ Duration.perSecond ≤ settings.retention.nanoseconds)) ∧
          ((r.longPoll = true → Duration.perSecond ≤ settings.retention.nanoseconds ∧
            settings.longPollTimeout.seconds ≤ LongPoll.maxTimeout) →
              ∃ page, (t.run ms).AnswersAlone r page) := by
  refine ⟨exists_start?_iff settings, ?_⟩
  rintro s hs rfl
  refine ⟨fun r cancelled t id ms reason h => pollResult?_ne_internal hs.paired
    (QueueSettings.isZero_tickInterval hvalid) h ms reason, ?_⟩
  intro q t p n ms hcal hp hn hw hfew r hr
  have hu : (t.run ms).Reachable := (hs.publish hp).run ms
  have hset : (t.run ms).settings = s.settings :=
    (settings_run t ms).trans (settings_publish hs hp)
  have hfound := mem_whole_iff hs (QueueSettings.pageSize_pos hvalid) hcal hp hn hw hr (hset ▸ hfew)
  rw [hset] at hfound
  have hvalid' : (t.run ms).settings.validate = .ok () := hset ▸ hvalid
  refine ⟨fun page hpage => ?_, fun hshort => ?_⟩
  · rw [events_of_answersAlone hu hvalid' hr hpage]
    exact hfound
  · cases hlong : r.longPoll with
    | false => exact ⟨_, answersAlone_plain hu hr hlong⟩
    | true =>
      obtain ⟨hretained, htimeout⟩ := hshort hlong
      exact answersAlone_long hu hvalid' hr hlong (by rw [hset]; exact htimeout)
        (List.ne_nil_of_mem (hfound.2 hretained))

def ordered (settings : QueueSettings) : Service :=
  ((sample settings 1000).run [.shutdown]).move (.publish (.newOrder "a" "x" "1"))

def carriedOut : List Move := List.replicate 4 (.advance 1 .done)

def isOnlyWrite (s : Service) (i : Nat) : Bool :=
  s.tasks.toList.zipIdx.all fun x => x.2 = i || x.1.write?.isNone

theorem alone_of_isOnlyWrite {i : Nat} (h : s.isOnlyWrite i = true) : s.core.Alone i := by
  intro j w hw _
  obtain ⟨u, hu, hwrite⟩ := Option.bind_eq_some_iff.1 hw
  have hmem : (u, j) ∈ s.tasks.toList.zipIdx := by
    rw [List.mem_zipIdx_iff_getElem?, Array.getElem?_toList]
    exact hu
  simpa [hwrite] using List.all_eq_true.1 h _ hmem

theorem writtenAlone_of_checks {p : Publication} {ms : List Move} (hstill : ∀ m ∈ ms, m.micros = 0)
    (honly : ∀ k < ms.length + 1, (t.run (ms.take k)).isOnlyWrite p.task = true)
    (htold : (t.run ms).publishResult? p = some (.ok .written)) : t.WrittenAlone p ms where
  still := hstill
  alone before hbefore := by
    rw [List.prefix_iff_eq_take.1 hbefore]
    exact alone_of_isOnlyWrite (honly _ (Nat.lt_succ_of_le hbefore.length_le))
  told := htold

/-- Of an order that is written after a shutdown a poll finds the event. -/
theorem valid_settings_show_order :
    let t := ordered {}
    let r : PollRequest := { subject := .admin }
    (∃ s, start? {} sampleIds 1000 = some s) ∧ t.WrittenAlone ⟨1, .written⟩ carriedOut ∧
      ∃ n page, ((sample {} 1000).run [.shutdown]).posted? (.publish (.newOrder "a" "x" "1")) =
          some n ∧ n.event.entityId = "a" ∧
        (t.run carriedOut).AnswersAlone r page ∧ n.event ∈ page.events := by
  intro t r
  have hvalid : QueueSettings.validate {} = .ok () := rfl
  obtain ⟨hstart, hruns⟩ := valid_settings_work_iff hvalid
  have hs : ((sample {} 1000).run [.shutdown]).Reachable := (reachable_sample 1000 []).run _
  have hw : t.WrittenAlone ⟨1, .written⟩ carriedOut :=
    writtenAlone_of_checks (by decide) (by decide +kernel) (by decide +kernel)
  have hreads := (hruns _ hs rfl).2 (.newOrder "a" "x" "1") t ⟨1, .written⟩ _ carriedOut (by decide)
    rfl rfl hw (by decide +kernel) r ⟨rfl, rfl, rfl⟩
  obtain ⟨page, hpage⟩ := hreads.2 nofun
  exact ⟨(hstart _ _).2 (by decide), hw, _, page, rfl, by decide +kernel, hpage,
    (hreads.1 page hpage).2 (by decide)⟩

/-- Settings are accepted with which no service starts, and such with which an order that has been
written is not found. -/
theorem valid_settings_fail :
    (¬ ∀ settings : QueueSettings, settings.validate = .ok () →
      ∃ s, start? settings sampleIds 1000 = some s) ∧
    ¬ ∀ settings : QueueSettings, settings.validate = .ok () →
      (ordered settings).WrittenAlone ⟨1, .written⟩ carriedOut → ∀ n page,
      ((sample settings 1000).run [.shutdown]).posted? (.publish (.newOrder "a" "x" "1")) = some n →
      ((ordered settings).run carriedOut).AnswersAlone { subject := .admin } page →
      n.event ∈ page.events := by
  constructor
  · intro hall
    have hstart := (exists_start?_iff _ _ _).1 (hall { writeSlots := 2305843009213693952 } rfl)
    exact absurd hstart (by decide)
  · intro hall
    let settings : QueueSettings := { retention := .ofMillis 500 }
    let u := (ordered settings).run carriedOut
    have hs : (sample settings 1000).Reachable :=
      ⟨settings, sampleIds, 1000, _, [], start?_sample (by decide) 1000, rfl⟩
    have hu : u.Reachable :=
      ((hs.run [.shutdown]).run [.publish (.newOrder "a" "x" "1")]).run carriedOut
    have hw : (ordered settings).WrittenAlone ⟨1, .written⟩ carriedOut :=
      writtenAlone_of_checks (by decide) (by decide +kernel) (by decide +kernel)
    have hnone : (u.whole { subject := .admin }).events = [] :=
      List.length_eq_zero_iff.1 (by decide +kernel)
    have hwhole : PollRequest.IsWhole { subject := .admin } .admin := ⟨rfl, rfl, rfl⟩
    obtain ⟨page, hpage⟩ : ∃ page, u.AnswersAlone { subject := .admin } page :=
      ⟨_, answersAlone_plain hu hwhole rfl⟩
    obtain ⟨n, hposted⟩ : ∃ n, ((sample settings 1000).run [.shutdown]).posted?
        (.publish (.newOrder "a" "x" "1")) = some n := ⟨_, rfl⟩
    have hvalid : u.settings.validate = .ok () := by
      rw [settings_run]
      rfl
    have hmem := hall settings rfl hw n page hposted hpage
    rw [events_of_answersAlone hu hvalid hwhole hpage, hnone] at hmem
    cases hmem

end Service

end NotificationQueue
