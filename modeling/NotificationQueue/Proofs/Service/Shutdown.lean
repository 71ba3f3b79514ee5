import NotificationQueue.Proofs.Delivery.Filtered
import NotificationQueue.Proofs.Service.Conservation
import NotificationQueue.Proofs.Service.Retention
import NotificationQueue.Proofs.Service.Writes

/-!
Shutting down. From the moment the pool is closed no background write is started, so those under way
can only end; the call waits until none is left, or until its deadline. Publishes go on, on their
callers' behalf, and polls see them as before.
-/
namespace NotificationQueue
set_option autoImplicit false

namespace Service

variable {s t : Service} {i : Nat} {p : Publication} {r : PublishRequest}

/-! ## A closed pool -/

theorem closed_run (hl : s.Linked) (h : s.slots.closed = true) (ms : List Move) :
    (s.run ms).slots.closed = true ∧ ∀ i, (s.run ms).core.Open i → s.core.Open i := by
  refine invariant_run (P := fun c => c.slots.closed = true ∧ ∀ i, c.Open i → s.core.Open i)
    (fun hc hstep => ?_) ⟨h, fun _ hi => hi⟩ hl ms
  obtain ⟨hclosed, hopen⟩ := hstep.closed hc.1
  exact ⟨hclosed, fun i hi => hc.2 i (hopen i hi)⟩

theorem Quiet.run (h : s.Quiet) (hl : s.Linked) (hclosed : s.slots.closed = true)
    (ms : List Move) : (s.run ms).Quiet :=
  fun i hi => h i ((closed_run hl hclosed ms).2 i hi)

theorem Published.written_of_closed {w : Write} (h : s.Published r p w)
    (hclosed : s.slots.closed = true) : p.delivery = .written := by
  cases hd : p.delivery with
  | written => rfl
  | dispatched =>
    have hopen := (h.dispatched.1 hd).1
    rw [hclosed] at hopen
    cases hopen

/-! ## Waiting for the writes -/

theorem any_open (s : Service) :
    s.tasks.any Task.isOpenBackgroundWrite = true ↔ ∃ i, s.core.Open i := by
  simp only [Array.any_eq_true, open_iff, Array.getElem?_eq_some_iff]
  constructor
  · rintro ⟨i, hi, hopen⟩
    exact ⟨i, _, ⟨hi, rfl⟩, hopen⟩
  · rintro ⟨i, u, ⟨hi, rfl⟩, hopen⟩
    exact ⟨i, hi, hopen⟩

/-- What a drain finds at one look: nothing yet, the end of all background writes, or one that its
deadline has come before. -/
def Finds (s : Service) (deadline : Nat) : Option (Except Failure Unit) → Prop
  | none => True
  | some (.ok ()) => s.Quiet
  | some (.error f) => f = .shutdownTimeout ∧ deadline ≤ s.time ∧ ∃ i, s.core.Open i

theorem advance_drain {d : Drain} (hd : s.tasks[i]? = some (.drain d)) (a : Answer) :
    ∃ result, (s.advance i a).tasks[i]? = some (.drain { d with result }) ∧
      (result = d.result ∨ s.Finds d.deadline result) := by
  have hto : ∀ result, (s.setTask i (.drain { d with result })).tasks[i]? =
      some (.drain { d with result }) := fun result => setTask_of_getElem? hd _
  simp only [advance, hd]
  unfold advanceDrain
  dsimp only
  split
  · exact ⟨d.result, hd, .inl rfl⟩
  · split
    · next hquiet =>
      refine ⟨_, hto _, .inr fun j hj => ?_⟩
      rw [Bool.not_eq_true', ← Bool.not_eq_true, any_open] at hquiet
      exact hquiet ⟨j, hj⟩
    · next hopen =>
      rw [Bool.not_eq_true', Bool.not_eq_false, any_open] at hopen
      split
      · next hdue => exact ⟨_, hto _, .inr ⟨rfl, hdue, hopen⟩⟩
      · exact ⟨d.result, hd, .inl rfl⟩

theorem move_drain (hl : s.Linked) {d : Drain} (hd : s.tasks[i]? = some (.drain d)) (m : Move) :
    (s.move m).tasks[i]? = some .gone ∨
      ∃ result, (s.move m).tasks[i]? = some (.drain { d with result }) ∧
        (result = d.result ∨ s.Finds d.deadline result) := by
  by_cases hdrop : m = .drop i
  · subst hdrop
    left
    simp only [move, drop, hd]
    exact setTask_of_getElem? hd _
  right
  cases hturn : m.turn? i with
  | some a =>
    obtain rfl := Move.turn?_eq_some.1 hturn
    exact advance_drain hd a
  | none =>
    refine ⟨d.result, ?_, .inl rfl⟩
    by_cases hcancel : m = .cancel i
    · subst hcancel
      simp only [move, cancel, hd]
    · exact move_of_ne hl hd id hturn hcancel hdrop

theorem move_gone (h : s.tasks[i]? = some .gone) (m : Move) :
    (s.move m).tasks[i]? = some .gone := by
  obtain ⟨v, hv, hnext⟩ := s.next_move m h
  cases hnext with
  | stay => exact hv
  | gone => exact hv
  | aside ht => exact ht.elim

/-- **What a drain tells it has found at some time of the run**, unless its caller has left it. -/
theorem run_drain (hl : s.Linked) {deadline : Nat}
    (hd : s.tasks[i]? = some (.drain ⟨deadline, none⟩)) (ms : List Move) :
    (s.run ms).tasks[i]? = some .gone ∨
      ∃ result, (s.run ms).tasks[i]? = some (.drain ⟨deadline, result⟩) ∧
        ∃ before, before <+: ms ∧ (s.run before).Finds deadline result := by
  -- From the end, since the drain looks at the service as it stands after the moves before.
  induction ms using List.reverseRecOn with
  | nil => exact .inr ⟨none, hd, [], List.prefix_refl _, trivial⟩
  | append_singleton ms m ih =>
    have hlater : ms <+: ms ++ [m] := List.prefix_append ms [m]
    rw [run_append]
    rcases ih with hgone | ⟨result, hresult, before, hbefore, hfinds⟩
    · exact .inl (move_gone hgone m)
    · refine (move_drain (hl.run ms) hresult m).imp_right ?_
      rintro ⟨result', hresult', rfl | hfinds'⟩
      · exact ⟨_, hresult', before, hbefore.trans hlater, hfinds⟩
      · exact ⟨_, hresult', ms, hlater, hfinds'⟩

theorem outcome?_of_drain (hl : s.Linked) {deadline : Nat}
    (hd : s.tasks[i]? = some (.drain ⟨deadline, none⟩)) {ms : List Move}
    {told : Except Failure Unit} (htold : (s.run ms).outcome? i = some told) :
    ∃ before, before <+: ms ∧ (s.run before).Finds deadline (some told) := by
  rcases run_drain hl hd ms with hgone | ⟨result, hresult, before, hbefore, hfinds⟩
  · simp only [outcome?, hgone] at htold
    cases htold
  · simp only [outcome?, hresult] at htold
    exact ⟨before, hbefore, htold ▸ hfinds⟩

theorem quiet_of_outcome? (hl : t.Linked) (hclosed : t.slots.closed = true) {deadline : Nat}
    (hd : t.tasks[i]? = some (.drain ⟨deadline, none⟩)) {ms : List Move}
    (htold : (t.run ms).outcome? i = some (.ok ())) : (t.run ms).Quiet := by
  obtain ⟨before, ⟨after, rfl⟩, hquiet⟩ := outcome?_of_drain hl hd htold
  have hstill : (t.run before).slots.closed = true := (closed_run hl hclosed before).1
  rw [run_append]
  exact hquiet.run (hl.run before) hstill after

theorem open_of_outcome? (hl : t.Linked) (hclosed : t.slots.closed = true) {deadline : Nat}
    (hd : t.tasks[i]? = some (.drain ⟨deadline, none⟩)) {ms : List Move} {f : Failure}
    (htold : (t.run ms).outcome? i = some (.error f)) : f = .shutdownTimeout ∧
      ∃ before j, before <+: ms ∧ deadline ≤ (t.run before).time ∧
        ∀ earlier, earlier <+: before → (t.run earlier).core.Open j := by
  obtain ⟨before, hbefore, hf, hdue, j, hopen⟩ := outcome?_of_drain hl hd htold
  refine ⟨hf, before, j, hbefore, hdue, ?_⟩
  rintro earlier ⟨rest, rfl⟩
  have hstill : (t.run earlier).slots.closed = true := (closed_run hl hclosed earlier).1
  rw [run_append] at hopen
  exact (closed_run (hl.run earlier) hstill rest).2 j hopen

/-! ## What polls see -/

theorem take_or_le_countP {l : List Entry} {e : Entry} (hsorted : l.Pairwise Entry.Precedes)
    (he : e ∈ l) (n : Nat) : e ∈ l.take n ∨ n ≤ l.countP (fun x => x.Precedes e) := by
  rw [← List.take_append_drop n l] at he hsorted
  rcases List.mem_append.1 he with hfirst | hrest
  · exact .inl hfirst
  · right
    have hahead : ∀ x ∈ l.take n, x.Precedes e := fun x hx =>
      (List.pairwise_append.1 hsorted).2.2 x hx e hrest
    have hlong : (l.take n).length = n := by
      have hpos := List.length_pos_of_mem hrest
      rw [List.length_drop] at hpos
      rw [List.length_take]
      omega
    calc n = (l.take n).countP (fun x => x.Precedes e) := by
          rw [List.countP_eq_length.2 fun x hx => decide_eq_true (hahead x hx), hlong]
      _ ≤ l.countP (fun x => x.Precedes e) := (List.take_sublist n l).countP_le

theorem mem_ranged_or {q : Query} {store : Store} {wall horizon : Score} {least : Option Score}
    {e : Entry} (hsorted : (q.between store wall least horizon).Pairwise Entry.Precedes)
    (he : e ∈ q.between store wall least horizon) (hfits : e.event.Fits q.type) :
    e.event ∈ (q.ranged store wall least horizon).events ∨
      min q.limit q.fetchLimit ≤ (q.between store wall least horizon).countP
        fun x => x.Precedes e := by
  let l := q.between store wall least horizon
  rcases (take_or_le_countP hsorted he q.fetchLimit).symm with hmany | hfetched
  · exact .inr (Nat.le_trans (Nat.min_le_right _ _) hmany)
  show e.event ∈ q.select ((l.take q.fetchLimit).map Entry.event) ∨ _
  cases htype : q.type with
  | none =>
    rw [Query.select, htype]
    exact .inl (List.mem_map_of_mem hfetched)
  | some type =>
    let kept := (l.take q.fetchLimit).filter (·.event.type = type)
    have hkept : kept.Sublist l := List.filter_sublist.trans (List.take_sublist _ l)
    have hmem : e ∈ kept := List.mem_filter.2 ⟨hfetched, decide_eq_true (hfits type htype)⟩
    have hselect : q.select ((l.take q.fetchLimit).map Entry.event) =
        (kept.take q.limit).map Entry.event := by
      rw [Query.select, htype]
      dsimp only
      rw [List.filter_map, List.map_take]
      rfl
    rw [hselect]
    refine (take_or_le_countP (hsorted.sublist hkept) hmem q.limit).imp List.mem_map_of_mem
      fun hmany => ?_
    exact Nat.le_trans (Nat.min_le_left _ _) (Nat.le_trans hmany hkept.countP_le)

/-- Polls see an entry: whatever reads the queue of its subject, from its score or below up to its
score or beyond, and asks for its type or for all, hands its event over. A read takes a page at
most, so it may leave to the next what has that much ahead of it. -/
def Shows (s : Service) (subject : Subject) (e : Entry) : Prop :=
  ∀ (id : Nat) (u : Task) (q : Query) (least : Option Score) (horizon : Score),
    s.tasks[id]? = some u → u.call? = some .range → u.read? = some (q, .ranging least horizon) →
    q.subject = subject → e.event.Fits q.type → least.getD Score.least ≤ e.score →
    e.score ≤ horizon →
    ∃ b : Batch, s.Hands id u q b ∧
      (e.event ∈ b.events ∨ min q.limit q.fetchLimit ≤
        (q.between s.store s.wall least horizon).countP fun x => x.Precedes e)

theorem Reachable.shows (hs : s.Reachable) {subject : Subject} {e : Entry}
    (he : e ∈ s.store.liveEntries subject.key s.wall) : s.Shows subject e := by
  intro id u q least horizon hu hcall hread hsubject hfits hleast hhorizon
  refine ⟨_, hands_ranged hu hcall hread, ?_⟩
  have hmem : e ∈ q.between s.store s.wall least horizon :=
    Query.mem_between.2 ⟨hsubject ▸ he, hleast, hhorizon⟩
  have hsorted : (q.between s.store s.wall least horizon).Pairwise Entry.Precedes :=
    (hs.stamped.store.sorted _).sublist Query.between_sublist
  exact mem_ranged_or hsorted hmem hfits

theorem le_horizon {score : Score} (hlast : score ≤ s.clock.last)
    (hpending : ∀ p ∈ s.clock.pending, score < p) : score ≤ s.clock.horizon s.wall := by
  cases hp : s.clock.pending with
  | nil =>
    rw [Clock.horizon_of_pending_eq_nil hp]
    exact Int.le_trans hlast (Int.le_max_right _ _)
  | cons oldest rest =>
    have hlt := hpending oldest (by rw [hp]; exact List.mem_cons_self)
    simp only [Clock.horizon, hp, Score.pred]
    lia

theorem Within.later {n : Nat} {start later score wall : Score}
    (h : Within n start score wall) (hle : start ≤ later) : Within n later score wall :=
  ⟨h.calendar, Int.lt_of_lt_of_le h.deadline (Int.add_le_add_right hle _), h.cutoff⟩

theorem shows_of_appended (hs : s.Reachable) {n : Nat}
    (hret : s.settings.retention.seconds = n) {ms : List Move} (hms : ∀ m ∈ ms, m.IsForward)
    {subject : Subject} {score : Score} {event : Event}
    (happend : (.append subject.key score event, .ok ()) ∈ s.calls i ms)
    (hwithin : Within n s.wall score (s.run ms).wall) :
    ∃ sequence, (s.run ms).Shows subject ⟨score, sequence, event⟩ ∨
      s.Cuts ms subject.key ⟨score, sequence, event⟩ := by
  obtain ⟨before, m, after, rfl, hm⟩ := exists_answered? happend
  have hland := change?_eq_some_iff.2 ⟨i, hm⟩
  have hafter : ∀ m' ∈ after, m'.IsForward := fun m' hm' =>
    hms m' (List.mem_append_right _ (List.mem_cons_of_mem _ hm'))
  have hwall : s.wall ≤ (s.run before).wall :=
    wall_le_run hs.linked fun m' hm' => hms m' (List.mem_append_left _ hm')
  have hret' : (s.run before).settings.retention.seconds = n := by rw [settings_run, hret]
  have hrun : s.run (before ++ m :: after) = ((s.run before).move m).run after :=
    s.run_append before (m :: after)
  rw [hrun] at hwithin ⊢
  have hlanded := hwithin.later hwall
  refine ⟨(s.run before).store.nextSequence,
    (keeps_of_landed (hs.run before) hret' hland hafter hlanded).imp (fun hkeeps => ?_)
      fun hcut => ?_⟩
  · have hdue := Instant.ofScore_lt_plusSeconds hlanded.calendar hlanded.deadline
    have hreach : (((s.run before).move m).run after).Reachable :=
      hrun ▸ hs.run (before ++ m :: after)
    exact hreach.shows (hkeeps.mem_liveEntries hdue)
  · have hprepend : (s.run before).Cuts ([m] ++ after) subject.key _ := Cuts.prepend [m] hcut
    exact hprepend.prepend before

/-! ## Publishes around a shutdown -/

/-- The write of a publish has ended in a run: its append has been made and, where it succeeded, a
trim behind it. -/
def Ended (t : Service) (p : Publication) (w : Write) (ms : List Move) : Prop :=
  ∃ result, (t.run ms).tasks[p.task]? = some (.write { w with phase := .finished result }) ∧
    w.Made t.settings.pageSize (t.calls p.task ms) (.finished result)

/-- What a publish has put into the store is seen by polls once it has landed and nothing older is
pending, for the retention, unless a trim cuts it off. -/
def Seen (t : Service) (r : PublishRequest) (p : Publication) (w : Write) (ms : List Move) : Prop :=
  (w.append, .ok ()) ∈ t.calls p.task ms →
    ((∀ q ∈ (t.run ms).clock.pending, w.score < q) →
      w.score ≤ (t.run ms).clock.horizon (t.run ms).wall) ∧
    ((∀ m ∈ ms, m.IsForward) →
      Within t.settings.retention.seconds t.wall w.score (t.run ms).wall → ∃ sequence,
        (t.run ms).Shows r.recipient ⟨w.score, sequence, w.event⟩ ∨
          t.Cuts ms r.recipient.key ⟨w.score, sequence, w.event⟩)

theorem finished_of_quiet {w : Write} (h : s.Quiet) (hw : s.tasks[i]? = some (.write w))
    (hback : w.background = true) : ∃ result, w.phase = .finished result := by
  have hended : ¬ (Task.write w).isOpenBackgroundWrite = true := fun hopen =>
    h i ((s.open_iff i).2 ⟨_, hw, hopen⟩)
  rw [Task.isOpenBackgroundWrite, hback, Bool.true_and, Bool.not_eq_true,
    Bool.not_eq_false'] at hended
  obtain ⟨key, event, score, background, phase⟩ := w
  cases phase with
  | finished result => exact ⟨result, rfl⟩
  | _ => cases hended

theorem ended_of_quiet (hl : t.Linked) {w : Write} (hw : t.tasks[p.task]? = some (.write w))
    (hphase : w.phase = .appending) (hback : w.background = true) {ms : List Move}
    (hquiet : (t.run ms).Quiet) : t.Ended p w ms := by
  obtain ⟨phase, hphase', hcalls, -⟩ := made_of_appending hl hw hphase (.inl hback)
  obtain ⟨result, hfinished⟩ := finished_of_quiet hquiet hphase' hback
  obtain rfl : phase = .finished result := hfinished
  exact ⟨result, hphase', hcalls⟩

theorem seen_of_published (hs : s.Reachable) {w : Write} (h : s.Published r p w) (ms : List Move) :
    (s.move (.publish r)).Seen r p w ms := by
  intro happend
  have ht : (s.move (.publish r)).Reachable := hs.run [.publish r]
  obtain ⟨-, hlast, hcal⟩ := ht.stamped.write p.task w (core_writes h.task)
  rw [Write.append, h.key] at happend
  refine ⟨fun hpending => le_horizon (le_last_run ht.linked hlast hcal ms) hpending, ?_⟩
  intro hms hwithin
  exact shows_of_appended ht rfl hms happend hwithin

/-- **A shutdown drains.** From its call on no publish is dispatched. It succeeds only when every
publish that had been dispatched has ended, and no slot is taken any more; it fails only with a
timeout, when at its deadline a background write that has been open all along is still so. All
publishes after its call are written on their callers' behalf, and polls see them. -/
theorem shutdown_drains {s : Service} (hs : s.Reachable) (ms : List Move) :
    let t := s.move .shutdown
    let u := t.run ms
    (∀ r v p, u.publish r = .ok (v, p) → p.delivery = .written) ∧
    (u.outcome? s.shutdown.2 = some (.ok ()) →
      (∀ (v : Service) r v' p past, v.Reachable → v.publish r = .ok (v', p) →
        p.delivery = .dispatched → v'.run past = s →
          ∃ w, v.Published r p w ∧ v'.Ended p w (past ++ .shutdown :: ms)) ∧
      ∀ later, (u.run later).slots.inFlight = 0) ∧
    (∀ f, u.outcome? s.shutdown.2 = some (.error f) → f = .shutdownTimeout ∧
      ∃ before i, before <+: ms ∧
        s.time + s.settings.shutdownTimeout.nanoseconds ≤ (t.run before).time ∧
        ∀ earlier, earlier <+: before → (t.run earlier).core.Open i) ∧
    ∀ r, r.blank? = none → ∃ p w, u.publish r = .ok (u.move (.publish r), p) ∧
      p.delivery = .written ∧ u.Published r p w ∧
        ∀ later, .drop p.task ∉ later →
          (u.move (.publish r)).Carried p w later ∧ (u.move (.publish r)).Seen r p w later := by
  intro t u
  have ht : t.Reachable := hs.run [.shutdown]
  have hu : u.Reachable := ht.run ms
  -- The pool stays closed, so that whatever comes to rest once is at rest ever after.
  have hclosed : t.slots.closed = true := rfl
  have hclosed_u : u.slots.closed = true := (closed_run ht.linked hclosed ms).1
  have hdrain : t.tasks[s.shutdown.2]? = some
      (.drain ⟨s.time + s.settings.shutdownTimeout.nanoseconds, none⟩) := by
    show (({ s with slots := s.slots.close }).spawn _).tasks[s.tasks.size]? = _
    rw [spawn_getElem?, if_pos rfl]
  have hwritten : ∀ r v p, u.publish r = .ok (v, p) → p.delivery = .written := by
    intro r v p hp
    obtain ⟨-, w, hpublished, -⟩ := carried_of_publish hu hp
    exact hpublished.written_of_closed hclosed_u
  refine ⟨hwritten, fun htold => ?_, fun f htold => ?_, fun r hr => ?_⟩
  · have hquiet : u.Quiet := quiet_of_outcome? ht.linked hclosed hdrain htold
    refine ⟨fun v r v' p past hv hp hdispatched hpast => ?_, fun later => ?_⟩
    · obtain ⟨rfl, w, hpublished, -⟩ := carried_of_publish hv hp
      refine ⟨w, hpublished, ?_⟩
      refine ended_of_quiet (hv.linked.move _) hpublished.task hpublished.phase
        (hpublished.background.2 hdispatched) ?_
      rw [run_append, hpast]
      exact hquiet
    · exact (hu.run later).inFlight_eq_zero (hquiet.run hu.linked hclosed_u later)
  · exact open_of_outcome? ht.linked hclosed hdrain htold
  · rcases u.publish_eq r with ⟨field, hblank, -⟩ | ⟨-, p, hp⟩
    · rw [hr] at hblank
      cases hblank
    · obtain ⟨-, w, hpublished, hcarried⟩ := carried_of_publish hu hp
      exact ⟨p, w, hp, hwritten r _ p hp, hpublished, fun later hlater =>
        ⟨hcarried later fun _ => hlater, seen_of_published hu hpublished later⟩⟩

/-- A first shutdown runs into its deadline with an order under way. A second one waits for it, and
an order after that is written at once. -/
theorem shutdown_drains_second_call :
    let first := (sample {} 1000).move (.publish (.newOrder "a" "x" "1"))
    let s := first.run [.shutdown, .elapse 30000, .advance 1 .waiting]
    let ms := [.advance 2 .waiting, .advance 0 .done, .advance 0 .done, .advance 0 .done,
      .advance 0 .done, .advance 2 .waiting]
    let u := (s.move .shutdown).run ms
    s.outcome? 1 = some (.error .shutdownTimeout) ∧ u.outcome? 2 = some (.ok ()) ∧
      (∃ p w, (sample {} 1000).Published (.newOrder "a" "x" "1") p w ∧
        first.Ended p w ([.shutdown, .elapse 30000, .advance 1 .waiting] ++ .shutdown :: ms)) ∧
      (∀ later, (u.run later).slots.inFlight = 0) ∧
      ∃ p w v, u.publish (.newOrder "b" "x" "1") = .ok (v, p) ∧ p.delivery = .written ∧
        u.Published (.newOrder "b" "x" "1") p w := by
  intro first s ms u
  have hstart : (sample {} 1000).Reachable := reachable_sample 1000 []
  have hs : s.Reachable := (hstart.run [.publish (.newOrder "a" "x" "1")]).run _
  obtain ⟨-, hok, -, hlater⟩ := shutdown_drains hs ms
  have htold : u.outcome? s.shutdown.2 = some (.ok ()) := by decide +kernel
  obtain ⟨hended, hfree⟩ := hok htold
  have hplaced : (sample {} 1000).publish (.newOrder "a" "x" "1") =
      .ok (first, ⟨0, .dispatched⟩) := rfl
  obtain ⟨w, hfirst⟩ := hended _ _ _ _ _ hstart hplaced rfl rfl
  obtain ⟨p, v, hp, hwritten, hpublished, -⟩ := hlater (.newOrder "b" "x" "1") (by decide +kernel)
  exact ⟨by decide +kernel, by decide +kernel, ⟨_, w, hfirst⟩, hfree, p, v, _, hp,
    hwritten, hpublished⟩

end Service

end NotificationQueue
