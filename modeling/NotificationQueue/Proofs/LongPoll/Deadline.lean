import NotificationQueue.Proofs.LongPoll.Wait

/-!
The deadline of a wait. The loop looks at it when a tick comes, and no tick comes while a fetch is
under way: a wait returns within a tick of its deadline just if all its fetches end by then.
-/
namespace NotificationQueue.LongPoll
set_option autoImplicit false

namespace Wait

variable {w : Wait} {deadline : Nat} {s : WaitState}

/-! ## Results -/

theorem Sound.endedBy (h : w.Sound deadline s) {r : Except Failure WaitOutcome}
    (hr : s.loop.result? = some r) : w.EndedBy s.now s.starts := by
  have hstands := h.stands
  cases hloop : s.loop with
  | starting | waiting | fetching =>
    rw [hloop] at hr
    cases hr
  | handed r =>
    rw [hloop] at hstands
    exact hstands.1
  | crashed =>
    rw [hloop] at hstands
    exact hstands

theorem Sound.le_now_of_timedOut (h : w.Sound deadline s)
    (hr : s.loop.result? = some (.ok .timedOut)) : deadline ≤ s.now * Duration.perMilli := by
  have hstands := h.stands
  cases hloop : s.loop with
  | starting | waiting | fetching | crashed =>
    rw [hloop] at hr
    cases hr
  | handed r =>
    rw [hloop] at hr hstands
    exact hstands.2 (Option.some.inj hr)

theorem Sound.exists_result (h : w.Sound deadline s) (hquiet : w.isReady deadline s = false)
    (hnever : w.nextTime s = none) {t : Nat} (hall : w.EndedBy t s.starts) :
    ∃ r, s.loop.result? = some r := by
  have htime := loopTime?_of_nextTime_eq_none hnever
  have hstands := h.stands
  cases hloop : s.loop with
  | starting => simp [isReady, loopStep?, hloop] at hquiet
  | waiting due => simp [loopTime?, hloop] at htime
  | fetching next =>
    rw [hloop] at hstands
    obtain ⟨-, -, -, start, earlier, hstarts, -, -, hend, -, -⟩ := hstands
    rw [hstarts] at hall
    obtain ⟨⟨d, hdelay, -⟩, -⟩ := hall
    rw [loopTime?, hloop, hend, hdelay] at htime
    cases htime
  | handed r => exact ⟨r, rfl⟩
  | crashed => exact ⟨_, rfl⟩

/-! ## Callers that stay -/

theorem callerView_eq_map (hcancel : w.cancelAt = none) (hdrop : w.dropAt = none)
    (s : WaitState) : w.callerView s = s.loop.result?.map .result := by
  unfold callerView
  rw [hcancel, hdrop]
  cases s.loop.result? with
  | some r => rfl
  | none => rfl

theorem Sound.result?_eq (h : w.Sound deadline s) (hcancel : w.cancelAt = none)
    (hdrop : w.dropAt = none) {e : Ending} (he : s.ending = some e) :
    ∃ r, s.loop.result? = some r ∧ .result r = e := by
  have hview := h.left e he
  rw [callerView_eq_map hcancel hdrop] at hview
  exact Option.map_eq_some_iff.1 hview

theorem Sound.returned (h : w.Sound deadline s) (hsettled : w.Settled deadline s)
    (hcancel : w.cancelAt = none) (hdrop : w.dropAt = none) {t : Nat}
    (hall : w.EndedBy t s.starts) : ∃ r, s.ending = some (.result r) := by
  rcases hsettled with hleft | ⟨hquiet, hnever⟩
  · obtain ⟨e, he⟩ := Option.isSome_iff_exists.1 hleft
    obtain ⟨r, -, rfl⟩ := h.result?_eq hcancel hdrop he
    exact ⟨r, he⟩
  · -- The caller would have taken the result at once.
    obtain ⟨r, hr⟩ := h.exists_result hquiet hnever hall
    have hview := callerView_eq_map hcancel hdrop s
    rw [hr] at hview
    rw [isReady, hview] at hquiet
    cases hquiet

/-! ## The deadline -/

/-- **A wait that is neither cancelled nor left comes to rest.** It returns by a time, a tick after
its deadline or later, just if all the fetches that it starts end by then, and it does not time out
before its deadline. -/
theorem returns_by_iff (w : Wait) (htimeout : w.timeout.seconds ≤ maxTimeout)
    (hcancel : w.cancelAt = none) (hdrop : w.dropAt = none) :
    ∃ s, w.run? = some s ∧
      (∀ t, wake (w.timeout.nanoseconds + w.interval.nanoseconds) ≤ t →
        (((∃ r, s.ending = some (.result r)) ∧ s.now ≤ t) ↔ w.EndedBy t s.starts)) ∧
      (s.ending = some (.result (.ok .timedOut)) →
        w.timeout.nanoseconds ≤ s.now * Duration.perMilli) ∧
      ∀ n, w.runFor w.timeout.nanoseconds s n = s := by
  obtain ⟨s, hrun⟩ : ∃ s, w.run? = some s := by
    unfold run? deadline?
    rw [if_pos htimeout]
    exact ⟨_, rfl⟩
  obtain ⟨hsound, hsettled⟩ := run?_eq_some hrun
  refine ⟨s, hrun, ?_, ?_, runFor_of_settled hsettled⟩
  · intro t hlate
    constructor
    · rintro ⟨⟨r, hend⟩, hnow⟩
      obtain ⟨r', hr, -⟩ := hsound.result?_eq hcancel hdrop hend
      exact (hsound.endedBy hr).mono hnow
    · intro hall
      exact ⟨hsound.returned hsettled hcancel hdrop hall, hsound.timely t hlate hall⟩
  · intro hend
    obtain ⟨r, hr, hsame⟩ := hsound.result?_eq hcancel hdrop hend
    cases hsame
    exact hsound.le_now_of_timedOut hr

def idleWait (tick : Nat) (delay : Option Nat) : Wait where
  timeout := .ofSeconds 1
  interval := .ofMillis tick
  fetch _ _ := ⟨delay, .batch (.empty none)⟩

/-- Quick fetches let a wait return within a tick of its deadline; one that never ends keeps it. -/
theorem returns_by_of_quick_fetches :
    (∃ s, (idleWait 400 (some 3)).run? = some s ∧
      (∃ r, s.ending = some (.result r)) ∧ s.now ≤ 1400) ∧
    ∃ s, (idleWait 400 none).run? = some s ∧
      ∀ t ≥ 1400, ¬ ((∃ r, s.ending = some (.result r)) ∧ s.now ≤ t) := by
  constructor
  · obtain ⟨s, hrun, hby, -, -⟩ := returns_by_iff (idleWait 400 (some 3)) (by decide) rfl rfl
    have hstarts : (idleWait 400 (some 3)).run?.map (·.starts) = some [800, 400, 0] := by
      decide +kernel
    rw [hrun, Option.map_some, Option.some.injEq] at hstarts
    refine ⟨s, hrun, (hby 1400 (by decide)).2 ?_⟩
    rw [hstarts]
    exact ⟨⟨3, rfl, by decide⟩, ⟨3, rfl, by decide⟩, ⟨3, rfl, by decide⟩, trivial⟩
  · obtain ⟨s, hrun, hby, -, -⟩ := returns_by_iff (idleWait 400 none) (by decide) rfl rfl
    have hstarts : (idleWait 400 none).run?.map (·.starts) = some [0] := by decide +kernel
    rw [hrun, Option.map_some, Option.some.injEq] at hstarts
    refine ⟨s, hrun, fun t ht hreturned => ?_⟩
    have hall := (hby t ht).1 hreturned
    rw [hstarts] at hall
    obtain ⟨⟨d, hdelay, -⟩, -⟩ := hall
    cases hdelay

/-- A fetch of five seconds keeps a wait of one second for four seconds longer. -/
theorem not_returned_within_tick :
    ¬ ∀ (w : Wait) (s : WaitState), w.interval.isZero = false → w.cancelAt = none →
      w.dropAt = none → w.run? = some s → (∃ r, s.ending = some (.result r)) ∧
        s.now * Duration.perMilli ≤ w.timeout.nanoseconds + w.interval.nanoseconds := by
  intro hall
  obtain ⟨s, hrun⟩ : ∃ s, (idleWait 100 (some 5000)).run? = some s := ⟨_, rfl⟩
  have hnow : (idleWait 100 (some 5000)).run?.map (·.now) = some 5000 := by decide +kernel
  rw [hrun, Option.map_some, Option.some.injEq] at hnow
  have hin := (hall _ s (by decide) rfl rfl hrun).2
  rw [hnow] at hin
  exact absurd hin (by decide)

end Wait

end NotificationQueue.LongPoll
