import NotificationQueue.Proofs.LongPoll.Deadline

/-!
What waits end with. An empty batch leaves a wait open, and anything else decides it: a wait that
its caller neither cancels nor leaves fetches in turn until a fetch decides it or a tick comes after
the deadline.
-/
namespace NotificationQueue.LongPoll
set_option autoImplicit false

def Yield.decides : Yield → Option (Except Failure WaitOutcome)
  | .batch b => if b.isEmpty then none else some (.ok (.ready b))
  | .failure f => some (.error f)
  | .crash => some (.error Loop.lost)

theorem Yield.decides_ne_timedOut (y : Yield) : y.decides ≠ some (.ok .timedOut) := by
  cases y with
  | batch b =>
    unfold decides
    split <;> simp
  | failure f => simp [decides]
  | crash => simp [decides]

theorem fetched_of_open {y : Yield} (h : y.decides = none) (next : Nat) :
    (Loop.fetching next).fetched y = .waiting next := by
  cases y with
  | batch b =>
    cases hempty : b.isEmpty with
    | true => simp only [Loop.fetched, hempty, if_true]
    | false => simp [Yield.decides, hempty] at h
  | failure f => cases h
  | crash => cases h

theorem result?_fetched {y : Yield} {r : Except Failure WaitOutcome} (h : y.decides = some r)
    (next : Nat) : ((Loop.fetching next).fetched y).result? = some r := by
  cases y with
  | batch b =>
    cases hempty : b.isEmpty with
    | true => simp [Yield.decides, hempty] at h
    | false =>
      simp only [Yield.decides, hempty, Bool.false_eq_true, if_false] at h
      simp only [Loop.fetched, hempty, Bool.false_eq_true, if_false, Loop.result?, h]
  | failure f => exact h
  | crash => exact h

theorem wake_mul_perMilli (n : Nat) : wake (n * Duration.perMilli) = n := by
  unfold wake Duration.perMilli
  omega

namespace Wait

variable {w : Wait} {deadline : Nat} {s s' : WaitState}

/-! ## Fetches in turn -/

/-- All of some fetches, given by their starts, the last first, ended by a reading of the timer and
found nothing, each before the next one started. -/
def IdleBy (w : Wait) (t : Nat) : List Nat → Prop
  | [] => True
  | start :: earlier =>
    (∃ d, (w.fetch earlier.length start).delay = some d ∧ start + d ≤ t) ∧
      (w.fetch earlier.length start).yield.decides = none ∧ w.IdleBy start earlier

theorem IdleBy.mono {starts : List Nat} {t u : Nat} (h : w.IdleBy t starts) (hle : t ≤ u) :
    w.IdleBy u starts := by
  cases starts with
  | nil => trivial
  | cons start earlier =>
    obtain ⟨⟨d, hd, hend⟩, hearlier⟩ := h
    exact ⟨⟨d, hd, Nat.le_trans hend hle⟩, hearlier⟩

structure Began (deadline : Nat) (starts : List Nat) : Prop where
  first : ∀ t ∈ starts.getLast?, t = 0
  early : ∀ t ∈ starts, t * Duration.perMilli < deadline

theorem Began.cons {starts : List Nat} (h : Began deadline starts) {t : Nat}
    (hfirst : starts = [] → t = 0) (ht : t * Duration.perMilli < deadline) :
    Began deadline (t :: starts) where
  first u hu := by
    cases hlast : starts.getLast? with
    | none =>
      rw [List.getLast?_cons, hlast] at hu
      obtain rfl : t = u := Option.some.inj hu
      exact hfirst (List.getLast?_eq_none_iff.1 hlast)
    | some v =>
      rw [List.getLast?_cons, hlast] at hu
      obtain rfl : v = u := Option.some.inj hu
      exact h.first v hlast
  early u hu := by
    rcases List.mem_cons.1 hu with rfl | hearlier
    · exact ht
    · exact h.early u hearlier

/-! ## The course of a wait -/

/-- A tick is due, at the latest an interval after the last fetch started, and time is not ahead of
both the tick and the end of that fetch. -/
def OnTime (w : Wait) (due now : Nat) : List Nat → Prop
  | [] => due = 0 ∧ now = 0
  | last :: earlier =>
    due ≤ last * Duration.perMilli + w.interval.nanoseconds ∧
      ∃ d, (w.fetch earlier.length last).delay = some d ∧ now ≤ max (wake due) (last + d)

theorem OnTime.pass {due now t : Nat} {starts : List Nat} (h : w.OnTime due now starts)
    (ht : t ≤ wake due) : w.OnTime due (max now t) starts := by
  cases starts with
  | nil =>
    obtain ⟨rfl, rfl⟩ := h
    exact ⟨rfl, Nat.max_eq_left ht⟩
  | cons last earlier =>
    obtain ⟨hdue, d, hdelay, hnow⟩ := h
    exact ⟨hdue, d, hdelay, Nat.max_le.2 ⟨hnow, Nat.le_trans ht (Nat.le_max_left _ _)⟩⟩

/-- The last fetch decided a wait as it ended, or the wait has timed out with no fetch that did. -/
inductive Decided (w : Wait) (deadline now : Nat) (r : Except Failure WaitOutcome) :
    List Nat → Prop
  | fetched {last d : Nat} {earlier : List Nat} (hearlier : w.IdleBy last earlier)
    (hdelay : (w.fetch earlier.length last).delay = some d)
    (hdecides : (w.fetch earlier.length last).yield.decides = some r) (hnow : now = last + d) :
    Decided w deadline now r (last :: earlier)
  | timedOut {last d : Nat} {earlier : List Nat} (hr : r = .ok .timedOut)
    (hall : w.IdleBy now (last :: earlier))
    (hdelay : (w.fetch earlier.length last).delay = some d)
    (hlate : deadline ≤ now * Duration.perMilli)
    (hnow : now ≤ max (wake (last * Duration.perMilli + w.interval.nanoseconds)) (last + d)) :
    Decided w deadline now r (last :: earlier)

def Course (w : Wait) (deadline : Nat) (s : WaitState) : Loop → Prop
  | .starting => s.now = 0 ∧ s.starts = []
  | .waiting due => w.IdleBy s.now s.starts ∧ w.OnTime due s.now s.starts
  | .fetching next =>
    ∃ last earlier, s.starts = last :: earlier ∧ w.IdleBy last earlier ∧
      next ≤ last * Duration.perMilli + w.interval.nanoseconds ∧
      s.fetchEnd = (w.fetch earlier.length last).delay.map (last + ·) ∧
      s.yield = (w.fetch earlier.length last).yield ∧ ∀ t ∈ s.fetchEnd, s.now ≤ t
  | .handed r => w.Decided deadline s.now r s.starts
  | .crashed => w.Decided deadline s.now (.error Loop.lost) s.starts

theorem course_of_result? {loop : Loop} {r : Except Failure WaitOutcome}
    (h : loop.result? = some r) :
    w.Course deadline s loop ↔ w.Decided deadline s.now r s.starts := by
  cases loop with
  | starting | waiting | fetching => cases h
  | handed r' =>
    obtain rfl : r' = r := Option.some.inj h
    exact Iff.rfl
  | crashed =>
    obtain rfl : .error Loop.lost = r := Option.some.inj h
    exact Iff.rfl

theorem course_fetched {next : Nat} (h : w.Course deadline s (.fetching next))
    (hcome : hasCome s.fetchEnd s.now = true) :
    w.Course deadline s ((Loop.fetching next).fetched s.yield) := by
  obtain ⟨last, earlier, hstarts, hearlier, hnext, hend, hyield, htimely⟩ := h
  obtain ⟨d, hdelay, hnow⟩ :
      ∃ d, (w.fetch earlier.length last).delay = some d ∧ s.now = last + d := by
    cases hdelay : (w.fetch earlier.length last).delay with
    | none =>
      rw [hend, hdelay] at hcome
      cases hcome
    | some d =>
      rw [hdelay] at hend
      rw [hend] at hcome
      exact ⟨d, rfl, Nat.le_antisymm (htimely _ hend) (of_decide_eq_true hcome)⟩
  rw [hyield]
  cases hdecides : (w.fetch earlier.length last).yield.decides with
  | none =>
    rw [fetched_of_open hdecides]
    refine ⟨?_, ?_⟩
    · rw [hstarts]
      exact ⟨⟨d, hdelay, Nat.le_of_eq hnow.symm⟩, hdecides, hearlier⟩
    · rw [hstarts]
      exact ⟨hnext, d, hdelay, hnow ▸ Nat.le_max_right _ _⟩
  | some r =>
    rw [course_of_result? (result?_fetched hdecides next), hstarts]
    exact .fetched hearlier hdelay hdecides hnow

theorem course_timeOut {due : Nat} (hdeadline : 0 < deadline)
    (h : w.Course deadline s (.waiting due)) (hlate : deadline ≤ s.now * Duration.perMilli) :
    w.Decided deadline s.now (.ok .timedOut) s.starts := by
  obtain ⟨hidle, hontime⟩ := h
  cases hstarts : s.starts with
  | nil =>
    -- The first tick comes before the deadline.
    rw [hstarts] at hontime
    rw [hontime.2] at hlate
    omega
  | cons last earlier =>
    rw [hstarts] at hidle hontime
    obtain ⟨hdue, d, hdelay, hnow⟩ := hontime
    have hwake := wake_mono hdue
    exact .timedOut rfl hidle hdelay hlate (by omega)

/-- **Every step keeps a wait on its course**, while its caller stays. -/
theorem Course.next (hdeadline : 0 < deadline) (htick : w.interval.isZero = false)
    (h : w.Course deadline s s.loop) (hnext : w.Next deadline s s') :
    w.Course deadline s' s'.loop := by
  cases hnext with
  | leave hview =>
    show w.Course deadline { s with ending := some _ } s.loop
    cases hloop : s.loop <;> rw [hloop] at h <;> exact h
  | start hview hloop =>
    rw [hloop] at h
    obtain ⟨hnow, hstarts⟩ := h
    show w.Course deadline _ (if w.interval.isZero then .crashed
      else .waiting (s.now * Duration.perMilli))
    rw [htick, if_neg Bool.false_ne_true]
    refine ⟨?_, ?_⟩
    · show w.IdleBy s.now s.starts
      rw [hstarts]
      trivial
    · show w.OnTime _ s.now s.starts
      rw [hstarts]
      exact ⟨by rw [hnow, Nat.zero_mul], hnow⟩
  | timeOut hview hloop hdue hlate =>
    rw [hloop] at h
    exact course_timeOut hdeadline h hlate
  | @fetch due hview hloop hdue hearly =>
    rw [hloop] at h
    refine ⟨s.now, s.starts, rfl, h.1, nextDue_le w.interval.nanoseconds hdue, rfl, rfl,
      fun t ht => ?_⟩
    obtain ⟨d, -, rfl⟩ := Option.map_eq_some_iff.1 (Option.mem_def.1 ht)
    exact Nat.le_add_right _ _
  | @fetched next hview hloop hcome =>
    rw [hloop] at h
    show w.Course deadline _ (s.loop.fetched s.yield)
    rw [hloop]
    have hkept := course_fetched h hcome
    cases hafter : (Loop.fetching next).fetched s.yield <;> rw [hafter] at hkept <;> exact hkept
  | @pass t hquiet ht =>
    obtain ⟨-, hle⟩ := nextTime_eq_some ht
    show w.Course deadline { s with now := max s.now t } s.loop
    cases hloop : s.loop with
    | waiting due =>
      rw [hloop] at h
      have hdue := hle (wake due) (by rw [loopTime?, hloop])
      exact ⟨h.1.mono (Nat.le_max_left _ _), h.2.pass hdue⟩
    | fetching next =>
      rw [hloop] at h
      obtain ⟨last, earlier, hstarts, hearlier, hnext, hend, hyield, htimely⟩ := h
      refine ⟨last, earlier, hstarts, hearlier, hnext, hend, hyield, fun u hu => ?_⟩
      exact Nat.max_le.2 ⟨htimely u hu, hle u (by rw [loopTime?, hloop]; exact hu)⟩
    | starting | handed | crashed =>
      have hready : w.isReady deadline s = true := by
        simp [isReady, callerView, loopStep?, hloop, Loop.result?]
      rw [hready] at hquiet
      cases hquiet
  | stuck => exact h

theorem began_next (hcourse : w.Course deadline s s.loop) (h : Began deadline s.starts)
    (hnext : w.Next deadline s s') : Began deadline s'.starts := by
  cases hnext with
  | leave | start | timeOut | fetched | pass | stuck => exact h
  | fetch hview hloop hdue hearly =>
    refine h.cons (fun hnone => ?_) hearly
    rw [hloop] at hcourse
    have hontime := hcourse.2
    rw [hnone] at hontime
    exact hontime.2

/-! ## Outcomes -/

theorem exists_endedBy (hfinite : ∀ n t, ∃ d, (w.fetch n t).delay = some d) (starts : List Nat) :
    ∃ t, w.EndedBy t starts := by
  induction starts with
  | nil => exact ⟨0, trivial⟩
  | cons start earlier ih =>
    obtain ⟨t, ht⟩ := ih
    obtain ⟨d, hd⟩ := hfinite earlier.length start
    exact ⟨max t (start + d), ⟨d, hd, Nat.le_max_right _ _⟩, ht.mono (Nat.le_max_left _ _)⟩

theorem exists_decided (hdeadline : 0 < w.timeout.nanoseconds) (htick : w.interval.isZero = false)
    (hcancel : w.cancelAt = none) (hdrop : w.dropAt = none)
    (hfinite : ∀ n t, ∃ d, (w.fetch n t).delay = some d) (hrun : w.run? = some s) :
    Began w.timeout.nanoseconds s.starts ∧ ∃ r, s.ending = some (.result r) ∧
      w.Decided w.timeout.nanoseconds s.now r s.starts := by
  obtain ⟨hsound, hsettled⟩ := run?_eq_some hrun
  obtain ⟨hcourse, hbegan⟩ :
      w.Course w.timeout.nanoseconds s s.loop ∧ Began w.timeout.nanoseconds s.starts := by
    have hstart : w.Course w.timeout.nanoseconds {} .starting ∧ Began w.timeout.nanoseconds [] :=
      ⟨⟨rfl, rfl⟩, nofun, nofun⟩
    rw [eq_runFor_of_run? hrun]
    refine runFor_keeps (P := fun s => w.Course w.timeout.nanoseconds s s.loop ∧
      Began w.timeout.nanoseconds s.starts) (fun _ h hnext => ?_) hstart _
    exact ⟨h.1.next hdeadline htick hnext, began_next h.1 h.2 hnext⟩
  obtain ⟨t, hall⟩ := exists_endedBy hfinite s.starts
  obtain ⟨r, hr⟩ := hsound.returned hsettled hcancel hdrop hall
  obtain ⟨r', hresult, hsame⟩ := hsound.result?_eq hcancel hdrop hr
  cases hsame
  exact ⟨hbegan, r, hr, (course_of_result? hresult).1 hcourse⟩

/-- **The first fetch that decides a wait decides it**, just if the timer can tell the deadline: the
fetches come one at a time, the first at once and each before the deadline, all but the last find
nothing, and the wait returns what the last one yields as it ends. It times out just if that one
finds nothing either, at the deadline or later by no more than a tick or the last fetch. -/
theorem decided_by_last_fetch_iff (w : Wait) {timeout tick : Nat} (htimeout : 0 < timeout)
    (htick : 0 < tick) (hdeadline : w.timeout = .ofMillis timeout)
    (hinterval : w.interval = .ofMillis tick) (hcancel : w.cancelAt = none)
    (hdrop : w.dropAt = none) (hfinite : ∀ n t, ∃ d, (w.fetch n t).delay = some d) :
    (∃ s last earlier d r, w.run? = some s ∧ (∀ n, w.runFor w.timeout.nanoseconds s n = s) ∧
      s.starts = last :: earlier ∧ s.starts.getLast? = some 0 ∧ (∀ t ∈ s.starts, t < timeout) ∧
      w.IdleBy last earlier ∧ (w.fetch earlier.length last).delay = some d ∧
      s.ending = some (.result r) ∧
      (∀ decided, (w.fetch earlier.length last).yield.decides = some decided →
        r = decided ∧ s.now = last + d) ∧
      (r = .ok .timedOut ↔ w.IdleBy s.now s.starts) ∧
      (r = .ok .timedOut → timeout ≤ s.now ∧ s.now ≤ timeout + max tick d)) ↔
      w.timeout.seconds ≤ maxTimeout := by
  have hmilli : 0 < Duration.perMilli := by decide
  have htime : w.timeout.nanoseconds = timeout * Duration.perMilli := by rw [hdeadline]; rfl
  have hticks : w.interval.nanoseconds = tick * Duration.perMilli := by rw [hinterval]; rfl
  constructor
  · rintro ⟨s, last, earlier, d, r, hrun, -⟩
    exact (exists_run?_iff w).1 ⟨s, hrun⟩
  intro hshort
  obtain ⟨s, hrun⟩ := (exists_run?_iff w).2 hshort
  obtain ⟨hbegan, r, hr, hdecided⟩ := exists_decided
    (by rw [htime]; exact Nat.mul_pos htimeout hmilli)
    (by rw [Duration.isZero, decide_eq_false_iff_not, hticks]
        exact Nat.ne_of_gt (Nat.mul_pos htick hmilli)) hcancel hdrop hfinite hrun
  have hstay := runFor_of_settled (run?_eq_some hrun).2
  have hearly : ∀ t ∈ s.starts, t < timeout := by
    intro t ht
    have hlt := hbegan.early t ht
    rw [htime] at hlt
    exact Nat.lt_of_mul_lt_mul_right hlt
  -- What the last fetch yielded tells whether it decided the wait or the deadline did.
  cases hstarts : s.starts with
  | nil =>
    rw [hstarts] at hdecided
    cases hdecided
  | cons last earlier =>
    have hsome : s.starts ≠ [] := hstarts ▸ List.cons_ne_nil last earlier
    have hfirst : s.starts.getLast? = some 0 := by
      rw [List.getLast?_eq_some_getLast hsome, hbegan.first _ (List.getLast?_eq_some_getLast hsome)]
    have hlast := hearly last (hstarts ▸ List.mem_cons_self)
    rw [hstarts] at hdecided
    cases hdecided with
    | @fetched _ d _ hearlier hdelay hdecides hnow =>
      have hopen : r ≠ .ok .timedOut := fun h => Yield.decides_ne_timedOut _ (h ▸ hdecides)
      refine ⟨s, last, earlier, d, r, hrun, hstay, hstarts, hfirst, hearly, hearlier, hdelay, hr,
        fun decided h => ?_, ⟨fun h => absurd h hopen, fun h => ?_⟩, fun h => absurd h hopen⟩
      · exact ⟨Option.some.inj (hdecides.symm.trans h), hnow⟩
      · rw [hstarts] at h
        rw [h.2.1] at hdecides
        cases hdecides
    | @timedOut _ d _ hrt hall hdelay hlate hnow =>
      refine ⟨s, last, earlier, d, r, hrun, hstay, hstarts, hfirst, hearly, hall.2.2, hdelay, hr,
        fun decided h => ?_, ⟨fun _ => hstarts ▸ hall, fun _ => hrt⟩, fun _ => ⟨?_, ?_⟩⟩
      · rw [hall.2.1] at h
        cases h
      · rw [htime] at hlate
        exact Nat.le_of_mul_le_mul_right hlate hmilli
      · rw [hticks, ← Nat.add_mul, wake_mul_perMilli] at hnow
        omega

def lateWait (found : Batch) (delay : Nat) : Wait where
  timeout := .ofMillis 1000
  interval := .ofMillis 400
  fetch n _ := if n = 0 then ⟨some 3, .batch (.empty none)⟩ else ⟨some delay, .batch found⟩

theorem lateWait_finite (found : Batch) (delay n t : Nat) :
    ∃ d, ((lateWait found delay).fetch n t).delay = some d := by
  dsimp only [lateWait]
  split <;> exact ⟨_, rfl⟩

/-- A batch found after the deadline is returned nevertheless, and fetches in vain time out. -/
theorem decided_by_late_fetch :
    (∃ s, (lateWait ⟨[default], none, false⟩ 700).run? = some s ∧
      s.ending = some (.result (.ok (.ready ⟨[default], none, false⟩))) ∧ s.now = 1100) ∧
    ∃ s, (lateWait (.empty none) 250).run? = some s ∧
      s.ending = some (.result (.ok .timedOut)) ∧ 1000 ≤ s.now ∧ s.now ≤ 1400 := by
  constructor
  · obtain ⟨s, last, earlier, d, r, hrun, -, hstarts, -, -, -, hdelay, hr, hdecided, -⟩ :=
      (decided_by_last_fetch_iff (lateWait ⟨[default], none, false⟩ 700) (by decide : 0 < 1000)
        (by decide : 0 < 400) rfl rfl rfl rfl (lateWait_finite _ _)).2 (by decide)
    have hfetches : (lateWait ⟨[default], none, false⟩ 700).run?.map (·.starts) =
        some [400, 0] := by
      decide +kernel
    rw [hrun, Option.map_some, Option.some.injEq, hstarts] at hfetches
    cases hfetches
    cases hdelay
    obtain ⟨rfl, hnow⟩ := hdecided _ rfl
    exact ⟨s, hrun, hr, hnow⟩
  · obtain ⟨s, last, earlier, d, r, hrun, -, hstarts, -, -, hearlier, hdelay, hr, -, hvain, hin⟩ :=
      (decided_by_last_fetch_iff (lateWait (.empty none) 250) (by decide : 0 < 1000)
        (by decide : 0 < 400) rfl rfl rfl rfl (lateWait_finite _ _)).2 (by decide)
    have hfetches : (lateWait (.empty none) 250).run?.map (fun s => (s.starts, s.now)) =
        some ([800, 400, 0], 1200) := by
      decide +kernel
    rw [hrun, Option.map_some, Option.some.injEq, Prod.mk.injEq, hstarts] at hfetches
    obtain ⟨hfetches, hnow⟩ := hfetches
    cases hfetches
    cases hdelay
    have hall : (lateWait (.empty none) 250).IdleBy s.now s.starts := by
      rw [hstarts, hnow]
      exact ⟨⟨250, rfl, by decide⟩, rfl, hearlier⟩
    obtain rfl := hvain.2 hall
    exact ⟨s, hrun, hr, hin rfl⟩

/-- A timeout of `2 ^ 64 - 1` seconds leaves no wait at all. -/
theorem not_decided_beyond_timer :
    ¬ ∀ (w : Wait) (timeout tick : Nat), 0 < timeout → 0 < tick → w.timeout = .ofMillis timeout →
      w.interval = .ofMillis tick → w.cancelAt = none → w.dropAt = none →
      (∀ n t, ∃ d, (w.fetch n t).delay = some d) →
      ∃ s r, w.run? = some s ∧ s.ending = some (.result r) := by
  intro hall
  obtain ⟨s, r, hrun, -⟩ := hall
    { lateWait (.empty none) 0 with timeout := .ofMillis (Text.maxWord64 * 1000) }
    (Text.maxWord64 * 1000) 400 (by decide) (by decide) rfl rfl rfl rfl (lateWait_finite _ _)
  have hnone : Wait.run?
      { lateWait (.empty none) 0 with timeout := .ofMillis (Text.maxWord64 * 1000) } = none := rfl
  rw [hnone] at hrun
  cases hrun

end Wait

end NotificationQueue.LongPoll
