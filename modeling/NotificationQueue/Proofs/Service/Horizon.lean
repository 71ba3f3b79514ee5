import NotificationQueue.Proofs.Service.History
import NotificationQueue.Proofs.Service.Read

/-!
What a reader is granted, and what is stamped behind its back. A reader looks at the horizon first
and reads a range later; a publish in between takes the wall clock as it finds it. The events of the
range stay below everything pending just if no such publish was stamped at or below one of them and
is still pending when the range is read.
-/
namespace NotificationQueue
set_option autoImplicit false

namespace Core

/-! ## Scores of what is stored -/

variable {c c' : Core} {l : Option Notice} {d : Int}

def Given (c : Core) (score : Score) (event : Event) : Prop :=
  event.score = score ∧ score ≤ c.clock.last ∧ score ≤ Timestamp.latest.score

/-- What holds of every core, however far the wall clock has been moved: all events that are written
or stored have scores that were given. -/
structure Stamped (c : Core) : Prop where
  clock : c.clock.Sound
  store : c.store.Sound
  write : ∀ i w, c.writes i = some w → c.Given w.score w.event
  entry : ∀ k, ∀ e ∈ c.store.entries k, c.Given e.score e.event
  write_pos : ∀ i w, c.writes i = some w → 0 < w.score
  entry_pos : ∀ k, ∀ e ∈ c.store.entries k, 0 < e.score

theorem reserve_le_latest (h : 0 ≤ c.clock.last) :
    (c.clock.reserve c.wall).1 ≤ Timestamp.latest.score := by
  rw [Clock.reserve_score h]
  lia

theorem Step.le_last (hstep : c.Step l d c') {p : Score} (hp : p ≤ c.clock.last)
    (hcal : p ≤ Timestamp.latest.score) : p ≤ c'.clock.last := by
  cases hstep with
  | stamp => exact Clock.le_candidate hp hcal
  | _ => exact hp

theorem Step.given (hstep : c.Step l d c') {score : Score} {event : Event}
    (h : c.Given score event) : c'.Given score event :=
  ⟨h.1, hstep.le_last h.2.1 h.2.2, h.2.2⟩

theorem Stamped.step (h : c.Stamped) (hstep : c.Step l d c') : c'.Stamped := by
  have hgiven : ∀ {score event}, c.Given score event → c'.Given score event := hstep.given
  rcases hstep.cases h.store with ⟨-, hf⟩ | ⟨id, d, hfree, -, rfl⟩ | ⟨id, w, hw, hp, -, rfl⟩
  · refine ⟨?_, h.store.shrinks hf.store, fun i w' hw' => ?_, fun k e he => ?_, fun i w' hw' => ?_,
      fun k e he => h.entry_pos k e ((hf.store.suffix k).subset he)⟩
    · rcases hf.clock with hc | ⟨id, w, -, hc, -⟩
      · rw [hc]
        exact h.clock
      · rw [hc]
        exact h.clock.release w.score
    · obtain ⟨w, hw, -, hscore, hevent, -⟩ := hf.write i w' hw'
      rw [hscore, hevent]
      exact hgiven (h.write i w hw)
    · exact hgiven (h.entry k e ((hf.store.suffix k).subset he))
    · obtain ⟨w, hw, -, hscore, -⟩ := hf.write i w' hw'
      rw [hscore]
      exact h.write_pos i w hw
  · refine ⟨h.clock.reserve c.wall, h.store, fun i w hw => ?_, fun k e he => ?_, fun i w hw => ?_,
      h.entry_pos⟩
    · rcases writes_setWrite hw with ⟨-, hw⟩ | ⟨-, hw⟩
      · cases hw
        refine ⟨score_notice h.clock.last_nonneg d, ?_, reserve_le_latest h.clock.last_nonneg⟩
        change (c.clock.reserve c.wall).1 ≤ c.clock.candidate c.wall
        rw [Clock.reserve_score h.clock.last_nonneg]
        lia
      · exact hgiven (h.write i w hw)
    · exact hgiven (h.entry k e he)
    · rcases writes_setWrite hw with ⟨-, hw⟩ | ⟨-, hw⟩
      · cases hw
        exact Clock.reserve_pos h.clock.last_nonneg
      · exact h.write_pos i w hw
  · refine ⟨h.clock, h.store.append _ _ _ _, fun i v hv => ?_, fun k e he => ?_, fun i v hv => ?_,
      fun k e he => ?_⟩
    · rcases writes_setWrite hv with ⟨-, hv⟩ | ⟨-, hv⟩
      · cases hv
        exact hgiven (h.write id w hw)
      · exact hgiven (h.write i v hv)
    · rcases entries_land he with ⟨-, rfl⟩ | he
      · exact hgiven (h.write id w hw)
      · exact hgiven (h.entry k e he)
    · rcases writes_setWrite hv with ⟨-, hv⟩ | ⟨-, hv⟩
      · cases hv
        exact h.write_pos id w hw
      · exact h.write_pos i v hv
    · rcases entries_land he with ⟨-, rfl⟩ | he
      · exact h.write_pos id w hw
      · exact h.entry_pos k e he

theorem Step.pending (hstep : c.Step l d c') {p : Score} (hp : p ∈ c'.clock.pending) :
    p ∈ c.clock.pending ∨ (l.isSome = true ∧ p = (c.clock.reserve c.wall).1) := by
  cases hstep with
  | stamp => exact (Clock.mem_pending_reserve.1 hp).symm.imp_right fun h => ⟨rfl, h⟩
  | release => exact .inl (Clock.mem_pending_release.1 hp).1
  | abandon => exact .inl (Clock.mem_pending_release.1 hp).1
  | _ => exact .inl hp

end Core

namespace Service

variable {s t : Service}

/-! ## Runs -/

def nextScore (s : Service) : Score :=
  (s.clock.reserve s.wall).1

def Accepts (s : Service) (r : PublishRequest) : Prop :=
  ∃ d, r.draft s.wall = .ok d

theorem stamped_start? {settings : QueueSettings} {ids : Nat → Uuid} {wall : Score}
    (h : start? settings ids wall = some s) : s.core.Stamped := by
  have hsound := sound_start? h
  obtain ⟨slots, rfl⟩ := start?_eq_some h
  have hnone : ∀ i w, ({ settings, ids, slots, wall : Service }).core.writes i ≠ some w := by
    intro i w hw
    obtain ⟨n, hn, -⟩ := hsound.write i w hw
    cases hn
  have hempty : ∀ k e, e ∉ ({ settings, ids, slots, wall : Service }).core.store.entries k :=
    fun k e => List.not_mem_nil
  exact ⟨hsound.clock, hsound.store, fun i w hw => absurd hw (hnone i w),
    fun k e he => absurd he (hempty k e), fun i w hw => absurd hw (hnone i w),
    fun k e he => absurd he (hempty k e)⟩

theorem invariant_run {P : Core → Prop} (hstep : ∀ {c c' l d}, P c → c.Step l d c' → P c')
    (h : P s.core) (hl : s.Linked) (ms : List Move) : P (s.run ms).core := by
  induction ms generalizing s with
  | nil => exact h
  | cons m ms ih => exact ih (hstep h (step_move hl m)) (hl.move m)

theorem stamped_run (h : s.core.Stamped) (hl : s.Linked) (ms : List Move) :
    (s.run ms).core.Stamped :=
  invariant_run Core.Stamped.step h hl ms

theorem le_last_run (hl : s.Linked) {p : Score} (hp : p ≤ s.clock.last)
    (hcal : p ≤ Timestamp.latest.score) (ms : List Move) : p ≤ (s.run ms).clock.last :=
  invariant_run (P := fun c => p ≤ c.clock.last) (fun hp hstep => hstep.le_last hp hcal) hp hl ms

theorem accepts_of_posted? {m : Move} (h : (s.posted? m).isSome = true) :
    ∃ r, m = .publish r ∧ s.Accepts r := by
  cases m with
  | publish r =>
    refine ⟨r, rfl, ?_⟩
    cases hd : r.draft s.wall with
    | ok d => exact ⟨d, hd⟩
    | error f =>
      rw [posted?, hd] at h
      cases h
  | _ => cases h

theorem mem_pending_run (hl : s.Linked) {ms : List Move} {p : Score}
    (hp : p ∈ (s.run ms).clock.pending) :
    p ∈ s.clock.pending ∨ ∃ before r after, ms = before ++ .publish r :: after ∧
      (s.run before).Accepts r ∧ p = (s.run before).nextScore := by
  induction ms generalizing s with
  | nil => exact .inl hp
  | cons m ms ih =>
    rcases ih (hl.move m) hp with hp | ⟨before, r, after, rfl, hr, rfl⟩
    · rcases (step_move hl m).pending hp with hp | ⟨hposted, rfl⟩
      · exact .inl hp
      · obtain ⟨r, rfl, hr⟩ := accepts_of_posted? hposted
        exact .inr ⟨[], r, ms, rfl, hr, rfl⟩
    · exact .inr ⟨m :: before, r, after, rfl, hr, rfl⟩

theorem nextScore_mem_pending {r : PublishRequest} (hr : s.Accepts r) :
    s.nextScore ∈ (s.move (.publish r)).clock.pending := by
  obtain ⟨d, hd⟩ := hr
  rw [move_publish, hd]
  have hmem : s.nextScore ∈ (s.clock.reserve s.wall).2.pending :=
    Clock.mem_pending_reserve.2 (.inl rfl)
  unfold submit
  dsimp only
  split
  · exact hmem
  · exact hmem

theorem lt_nextScore_iff (h : s.core.Stamped) {e : Score} :
    e < s.nextScore ↔
      e < Timestamp.latest.score ∧ (e ≤ s.clock.last ∨ e < s.wall) := by
  have h0 : 0 ≤ s.clock.last := h.clock.last_nonneg
  rw [nextScore, Clock.reserve_score h0, Timestamp.latest_score]
  unfold Clock.candidate Score.succ Score.greatest
  lia

theorem le_nextScore (h : s.core.Stamped) {e : Score} (hcal : e ≤ Timestamp.latest.score)
    (he : e ≤ s.clock.last ∨ e ≤ s.wall) : e ≤ s.nextScore := by
  have h0 : 0 ≤ s.clock.last := h.clock.last_nonneg
  rw [Timestamp.latest_score] at hcal
  rw [nextScore, Clock.reserve_score h0, Timestamp.latest_score]
  unfold Clock.candidate Score.succ Score.greatest
  lia

/-! ## Reads -/

/-- A service that has been started and then moved in any way. -/
def Reachable (s : Service) : Prop :=
  ∃ settings ids wall s₀ ms, start? settings ids wall = some s₀ ∧ s₀.run ms = s

theorem Reachable.linked (h : s.Reachable) : s.Linked := by
  obtain ⟨settings, ids, wall, s₀, ms, hstart, rfl⟩ := h
  exact (linked_start? hstart).run ms

theorem Reachable.stamped (h : s.Reachable) : s.core.Stamped := by
  obtain ⟨settings, ids, wall, s₀, ms, hstart, rfl⟩ := h
  exact stamped_run (stamped_start? hstart) (linked_start? hstart) ms

theorem Reachable.run (h : s.Reachable) (ms : List Move) : (s.run ms).Reachable := by
  obtain ⟨settings, ids, wall, s₀, past, hstart, rfl⟩ := h
  exact ⟨settings, ids, wall, s₀, past ++ ms, hstart, run_append s₀ past ms⟩

theorem exists_accepted (s : Service) : ∃ r, s.Accepts r :=
  ⟨.orderStatusChange "o" "u" "s", _, rfl⟩

theorem Reachable.invariant {P : Core → Prop}
    (hinit : ∀ {settings ids wall s₀}, start? settings ids wall = some s₀ → P s₀.core)
    (hstep : ∀ {c c' l d}, c.Stamped → P c → c.Step l d c' → P c') (h : s.Reachable) :
    P s.core := by
  obtain ⟨settings, ids, wall, s₀, ms, hstart, rfl⟩ := h
  have hboth := invariant_run (P := fun c => c.Stamped ∧ P c)
    (fun hc hs => ⟨hc.1.step hs, hstep hc.1 hc.2 hs⟩)
    ⟨stamped_start? hstart, hinit hstart⟩ (linked_start? hstart) ms
  exact hboth.2

/-- A read that is at its range has looked at the horizon before: every read of a service does the
one first and the other later, with any moves in between. -/
def Looked (t : Service) : Prop :=
  ∀ (id : Nat) (u : Task) (q : Query) (least : Option Score) (horizon : Score),
    t.tasks[id]? = some u → u.read? = some (q, .ranging least horizon) →
    ∃ (s : Service) (window : List Move) (a : Answer), s.Reachable ∧ s.run window = t ∧
      (ReadPhase.bounding least).step q s.store s.clock s.wall a = .ranging least horizon

theorem read?_of_next {u v : Task} (h : u.Next s v) {q : Query} {phase : ReadPhase}
    (hread : v.read? = some (q, phase)) :
    ∃ before, u.read? = some (q, before) ∧
      (phase = before ∨ (∃ a, phase = before.step q s.store s.clock s.wall a) ∨
        phase = q.start) := by
  cases h with
  | stay => exact ⟨phase, hread, .inl rfl⟩
  | aside _ hv => cases v <;> first | exact hv.elim | cases hread
  | read r a =>
    obtain ⟨rfl, rfl⟩ := Prod.mk.inj (Option.some.inj hread)
    exact ⟨r.phase, rfl, .inr (.inl ⟨a, rfl⟩)⟩
  | fetch k a =>
    rw [Task.read?, Ticker.fetch_query, Ticker.fetch_read] at hread
    obtain ⟨rfl, rfl⟩ := Prod.mk.inj (Option.some.inj hread)
    exact ⟨k.read, rfl, .inr (.inl ⟨a, rfl⟩)⟩
  | tick k =>
    obtain ⟨rfl, rfl⟩ := Prod.mk.inj (Option.some.inj hread)
    exact ⟨k.read, rfl, .inr (.inr rfl)⟩
  | _ => cases hread

theorem looks_of_next {u v : Task} (h : u.Next s v) {q : Query} {least : Option Score}
    {horizon : Score} (hread : v.read? = some (q, .ranging least horizon)) :
    u.read? = some (q, .ranging least horizon) ∨ s.clock.horizon s.wall = horizon := by
  obtain ⟨before, hbefore, hstay | ⟨a, hstep⟩ | hstart⟩ := read?_of_next h hread
  · exact .inl (hstay ▸ hbefore)
  · refine (ReadPhase.of_step_ranging hstep.symm).imp (fun hphase => ?_) And.right
    rw [hbefore, hphase]
  · exact absurd hstart.symm (ReadPhase.start_ne_ranging q)

theorem Looked.move (h : t.Looked) (ht : t.Reachable) (m : Move) : (t.move m).Looked := by
  intro id v q least horizon hv hread
  cases hu : t.tasks[id]? with
  | none =>
    -- A task that has just been added is at the start of its read.
    exact absurd (t.start_of_move m hu hv hread).1.symm (ReadPhase.start_ne_ranging q)
  | some u =>
    obtain ⟨v', hv', hnext⟩ := t.next_move m hu
    rw [hv] at hv'
    cases hv'
    rcases looks_of_next hnext hread with hread | hhorizon
    · obtain ⟨s, window, a, hs, rfl, hstep⟩ := h id u q least horizon hu hread
      exact ⟨s, window ++ [m], a, hs, s.run_append window [m], hstep⟩
    · exact ⟨t, [m], .done, ht, rfl, congrArg (ReadPhase.ranging least) hhorizon⟩

/-- **Every range read comes after a look at the horizon.** -/
theorem Reachable.looked (h : t.Reachable) : t.Looked := by
  obtain ⟨settings, ids, wall, s₀, ms, hstart, rfl⟩ := h
  have hs₀ : s₀.Reachable := ⟨settings, ids, wall, s₀, [], hstart, rfl⟩
  have hlooked : s₀.Looked := by
    obtain ⟨slots, rfl⟩ := start?_eq_some hstart
    intro id u q least horizon hu
    simp at hu
  clear hstart
  induction ms generalizing s₀ with
  | nil => exact hlooked
  | cons m ms ih => exact ih (s₀.move m) (hs₀.run [m]) (hlooked.move hs₀ m)

section

variable {window : List Move} {q : Query} {least : Option Score} {horizon : Score} {b : Batch}
  {a : Answer}

theorem given_of_returned (hs : s.Reachable)
    (hrange : (ReadPhase.ranging least horizon).step q s.store s.clock s.wall .done =
      .finished (.ok b)) {e : Event} (he : e ∈ b.events) :
    s.core.Given e.score e ∧ e.score ≤ horizon := by
  obtain ⟨-, x, hx, rfl⟩ := ReadPhase.mem_of_ranging hrange he
  have hgiven := hs.stamped.entry _ x (Query.between_sublist.subset hx)
  rw [hgiven.1]
  exact ⟨hgiven, (Query.mem_between.1 hx).2.2⟩

/-- What is pending at some time after a range read was pending at the horizon read, and so lies
above the horizon; or was stamped between the two reads, and is pending at the second; or was
stamped later. -/
theorem pending_cases (hs : s.Reachable)
    (hbound : (ReadPhase.bounding least).step q s.store s.clock s.wall a = .ranging least horizon)
    {later : List Move} {p : Score} (hp : p ∈ ((s.run window).run later).clock.pending) :
    horizon < p ∨
    (∃ before r after, window = before ++ .publish r :: after ∧ (s.run before).Accepts r ∧
      p = (s.run before).nextScore ∧ p ∈ (s.run window).clock.pending) ∨
    ∃ before, p = ((s.run window).run before).nextScore := by
  rcases mem_pending_run (hs.run window).linked hp with hp | ⟨before, r, after, -, -, rfl⟩
  · rcases mem_pending_run hs.linked hp with hold | ⟨before, r, after, hsplit, hr, rfl⟩
    · have hhorizon : s.clock.horizon s.wall = horizon := (ReadPhase.ranging.inj hbound).2
      have habove : s.clock.horizon s.wall < p := hs.stamped.clock.horizon_lt hold
      exact .inl (hhorizon ▸ habove)
    · exact .inr (.inl ⟨before, r, after, hsplit, hr, rfl, hp⟩)
  · exact .inr (.inr ⟨before, rfl⟩)

/-- **Events that a poll returns stay below everything pending**, at the range read and ever after,
just if none of them has the last score of the calendar and every publish that was accepted since
the horizon was read, and is still pending at the range read, came after them: its score was given
later, or the wall clock read more than theirs. -/
theorem returned_lt_pending_iff (hs : s.Reachable) (window : List Move)
    (hbound : (ReadPhase.bounding least).step q s.store s.clock s.wall a = .ranging least horizon)
    (hrange : (ReadPhase.ranging least horizon).step q (s.run window).store (s.run window).clock
      (s.run window).wall .done = .finished (.ok b)) :
    (∀ later, ∀ e ∈ b.events, ∀ p ∈ ((s.run window).run later).clock.pending, e.score < p) ↔
    ∀ e ∈ b.events, e.score < Timestamp.latest.score ∧
      ∀ before r after, window = before ++ .publish r :: after → (s.run before).Accepts r →
        (s.run before).nextScore ∈ (s.run window).clock.pending →
        e.score ≤ (s.run before).clock.last ∨ e.score < (s.run before).wall := by
  constructor
  · intro hall e he
    have hcal : e.score < Timestamp.latest.score := by
      -- Were it the last score, the next publish would be given it again.
      obtain ⟨r, hr⟩ := exists_accepted (s.run window)
      have hlt := hall [.publish r] e he _ (nextScore_mem_pending hr)
      exact ((lt_nextScore_iff (hs.run window).stamped).1 hlt).1
    refine ⟨hcal, fun before r after _ _ hp => ?_⟩
    have hlt := hall [] e he _ hp
    exact ((lt_nextScore_iff (hs.run before).stamped).1 hlt).2
  · intro hall later e he p hp
    obtain ⟨hgiven, hle⟩ := given_of_returned (hs.run window) hrange he
    obtain ⟨hcal, hwindow⟩ := hall e he
    rcases pending_cases hs hbound hp with habove | ⟨before, r, after, hsplit, hr, rfl, hp⟩ |
      ⟨before, rfl⟩
    · exact Int.lt_of_le_of_lt hle habove
    · have hfresh := hwindow before r after hsplit hr hp
      exact (lt_nextScore_iff (hs.run before).stamped).2 ⟨hcal, hfresh⟩
    · have hlast := le_last_run (hs.run window).linked hgiven.2.1 hgiven.2.2 before
      exact (lt_nextScore_iff ((hs.run window).run before).stamped).2 ⟨hcal, .inl hlast⟩

/-- While the wall clock does not go back between the two reads, nothing pending is ever below an
event that a poll has returned. -/
theorem returned_le_pending_of_forward (hs : s.Reachable) (hf : ∀ m ∈ window, m.IsForward)
    (hbound : (ReadPhase.bounding least).step q s.store s.clock s.wall a = .ranging least horizon)
    (hrange : (ReadPhase.ranging least horizon).step q (s.run window).store (s.run window).clock
      (s.run window).wall .done = .finished (.ok b)) (later : List Move) {e : Event}
    (he : e ∈ b.events) {p : Score} (hp : p ∈ ((s.run window).run later).clock.pending) :
    e.score ≤ p := by
  obtain ⟨hgiven, hle⟩ := given_of_returned (hs.run window) hrange he
  rcases pending_cases hs hbound hp with habove | ⟨before, r, after, rfl, -, rfl, -⟩ | ⟨before, rfl⟩
  · exact Int.le_of_lt (Int.lt_of_le_of_lt hle habove)
  · refine le_nextScore (hs.run before).stamped hgiven.2.2 ?_
    have hhorizon : s.clock.horizon s.wall = horizon := (ReadPhase.ranging.inj hbound).2
    have hnow : s.clock.horizon s.wall ≤ max s.wall s.clock.last := hs.stamped.clock.horizon_le
    have hwall := wall_le_run hs.linked fun m hm => hf m (List.mem_append_left _ hm)
    by_cases hlast : e.score ≤ s.clock.last
    · exact .inl (le_last_run hs.linked hlast hgiven.2.2 before)
    · exact .inr (by lia)
  · have hlast := le_last_run (hs.run window).linked hgiven.2.1 hgiven.2.2 before
    exact le_nextScore ((hs.run window).run before).stamped hgiven.2.2 (.inl hlast)

end

def adminQuery : Query := PollRequest.query ⟨.admin, none, none, false⟩ {}

theorem reachable_sample (wall : Score) (ms : List Move) : ((sample {} wall).run ms).Reachable :=
  ⟨{}, sampleIds, wall, sample {} wall, ms, start?_sample (by decide) wall, rfl⟩

def placed : Service :=
  (sample {} 10000000).run
    [.publish (.newOrder "a" "c" "1"), .advance 0 .done, .advance 0 .done, .elapse 1]

/-- Another order is placed between the two reads, and its write is pending: what is read stays
below it, and below all that follows, wherever the wall clock goes. -/
theorem returned_lt_pending_while_placing :
    let t := placed.run [.publish (.newOrder "b" "c" "1")]
    let read := adminQuery.ranged t.store t.wall none 10001000
    placed.Reachable ∧ t.clock.pending = [10001000] ∧ read.events.map Event.score = [10000000] ∧
      ∀ later, ∀ e ∈ read.events, ∀ p ∈ (t.run later).clock.pending, e.score < p := by
  intro t read
  have hreach : placed.Reachable := reachable_sample 10000000 _
  have hhorizon : placed.clock.horizon placed.wall = 10001000 := by decide +kernel
  have hlast : placed.clock.last = 10000000 := by decide +kernel
  have hscores : read.events.map Event.score = [10000000] := by decide +kernel
  refine ⟨hreach, by decide +kernel, hscores, ?_⟩
  refine (returned_lt_pending_iff (a := .waiting) hreach [.publish (.newOrder "b" "c" "1")]
    (congrArg (ReadPhase.ranging none) hhorizon)
    (ReadPhase.step_ranging_done adminQuery _ _ _ none 10001000)).2
      fun e he => ⟨?_, fun before r after hsplit _ _ => ?_⟩
  · have hscore : e.score ∈ [(10000000 : Score)] := hscores ▸ List.mem_map_of_mem he
    rw [List.mem_singleton.1 hscore]
    decide
  · have hscore : e.score ∈ [(10000000 : Score)] := hscores ▸ List.mem_map_of_mem he
    have hbefore : before = [] := by
      cases before with
      | nil => rfl
      | cons m rest =>
        have hlength := congrArg List.length hsplit
        simp at hlength
    subst hbefore
    exact .inl (Int.le_of_eq ((List.mem_singleton.1 hscore).trans hlast.symm))

/-- The wall clock is set back by five seconds. Of two orders that are placed then, the second
lands. -/
def setBack : List Move :=
  [.skew (-5000000), .publish (.newOrder "a" "c" "1"), .publish (.newOrder "b" "c" "1"),
    .advance 1 .done]

/-- A wall clock that goes back between the two reads lets a reader pass a write. -/
theorem returned_not_lt_pending :
    ¬ ∀ (s : Service) (window later : List Move) (q : Query) (least : Option Score)
      (horizon : Score) (b : Batch) (a : Answer), s.Reachable →
      (ReadPhase.bounding least).step q s.store s.clock s.wall a = .ranging least horizon →
      (ReadPhase.ranging least horizon).step q (s.run window).store (s.run window).clock
        (s.run window).wall .done = .finished (.ok b) →
      ∀ e ∈ b.events, ∀ p ∈ ((s.run window).run later).clock.pending, e.score < p := by
  intro hall
  have hscores : (adminQuery.ranged ((sample {} 10000000).run setBack).store 5000000 none
      10000000).events.map Event.score = [5000001] := by decide +kernel
  obtain ⟨e, he, hscore⟩ := List.mem_map.1 (hscores ▸ List.mem_singleton_self (5000001 : Score))
  have hlt := hall (sample {} 10000000) setBack [] adminQuery none 10000000 _ .waiting
    (reachable_sample 10000000 []) rfl
    (ReadPhase.step_ranging_done adminQuery _ _ _ none 10000000) e he 5000000 (by decide +kernel)
  rw [hscore] at hlt
  exact absurd hlt (by decide)

end Service

end NotificationQueue
