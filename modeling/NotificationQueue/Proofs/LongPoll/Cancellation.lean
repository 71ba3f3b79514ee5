import NotificationQueue.Proofs.LongPoll.Outcome

/-!
Waits that their callers cancel or leave. The caller and the loop run in turns that come in any
order, and time passes when neither has anything to do: in every order a wait ends by the time its
caller gives it up, with the result that its loop has handed over or, if there is none, at that very
time.
-/
namespace NotificationQueue.LongPoll
set_option autoImplicit false

namespace Wait

variable {w : Wait} {deadline : Nat} {s t u : WaitState}

/-! ## Turns in any order -/

/-- What can happen to a wait that has not ended. The caller takes a result that was handed over,
looks at its token otherwise, and may be gone once the time for that has come. The loop first runs
when its caller waits, and whoever leaves stops it. -/
inductive Happens (w : Wait) (deadline : Nat) (s : WaitState) : WaitState → Prop
  | take {r : Except Failure WaitOutcome} (hr : s.loop.result? = some r) :
    Happens w deadline s { s with ending := some (.result r) }
  | cancel (hr : s.loop.result? = none) (hcome : hasCome w.cancelAt s.now = true) :
    Happens w deadline s { s with ending := some (.result (.error .cancelled)) }
  | drop (hcome : hasCome w.dropAt s.now = true) :
    Happens w deadline s { s with ending := some .dropped }
  | loop {t : WaitState} (hwaits : s.loop = .starting → hasCome w.cancelAt s.now = false)
    (hloop : w.loopStep? deadline s = some t) : Happens w deadline s t
  | pass {time : Nat} (hquiet : w.isReady deadline s = false) (ht : w.nextTime s = some time) :
    Happens w deadline s { s with now := max s.now time }

inductive Reaches (w : Wait) (deadline : Nat) (s : WaitState) : WaitState → Prop
  | refl : Reaches w deadline s s
  | tail {t u : WaitState} (h : Reaches w deadline s t) (hopen : t.ending = none)
    (hnext : w.Happens deadline t u) : Reaches w deadline s u

theorem Reaches.head (hopen : s.ending = none) (hnext : w.Happens deadline s t)
    (h : w.Reaches deadline t u) : w.Reaches deadline s u := by
  induction h with
  | refl => exact .tail .refl hopen hnext
  | tail _ hopen hnext ih => exact .tail ih hopen hnext

theorem Reaches.eq_of_ending (h : w.Reaches deadline s t) {e : Ending} (he : s.ending = some e) :
    t = s := by
  induction h with
  | refl => rfl
  | tail _ hopen _ ih =>
    rw [ih, he] at hopen
    cases hopen

/-! ## The order in which a wait is run -/

theorem happens_of_callerView {e : Ending} (h : w.callerView s = some e) :
    w.Happens deadline s { s with ending := some e } := by
  unfold callerView at h
  split at h
  · next r hr =>
    cases h
    exact .take hr
  · next hr =>
    split at h
    · next hcome =>
      cases h
      exact .cancel hr hcome
    · split at h
      · next hcome =>
        cases h
        exact .drop hcome
      · cases h

theorem hasCome_cancelAt_of_callerView (h : w.callerView s = none) :
    hasCome w.cancelAt s.now = false := by
  unfold callerView at h
  split at h
  · cases h
  · split at h
    · cases h
    · next hcome => exact Bool.eq_false_iff.2 hcome

theorem happens_step (hopen : s.ending = none) :
    w.Happens deadline s (w.step deadline s) ∨
      (w.isReady deadline s = false ∧ w.nextTime s = none) := by
  cases hview : w.callerView s with
  | some e =>
    simp only [step, hopen, hview]
    exact .inl (happens_of_callerView hview)
  | none =>
    cases hloop : w.loopStep? deadline s with
    | some after =>
      simp only [step, hopen, hview, hloop]
      exact .inl (.loop (fun _ => hasCome_cancelAt_of_callerView hview) hloop)
    | none =>
      have hquiet : w.isReady deadline s = false := by simp [isReady, hview, hloop]
      cases ht : w.nextTime s with
      | some time =>
        rw [step_of_quiet hopen hquiet, ht, Option.getD_some]
        exact .inl (.pass hquiet ht)
      | none => exact .inr ⟨hquiet, rfl⟩

theorem reaches_runFor (w : Wait) (deadline : Nat) (s : WaitState) (n : Nat) :
    w.Reaches deadline s (w.runFor deadline s n) := by
  induction n generalizing s with
  | zero => exact .refl
  | succ n ih =>
    unfold runFor
    cases hopen : s.ending with
    | some e => exact .refl
    | none =>
      rcases happens_step (w := w) hopen with hnext | ⟨hquiet, hnever⟩
      · exact .head hopen hnext (ih _)
      · have hstay : w.step deadline s = s := by
          rw [step_of_quiet hopen hquiet, hnever, Option.getD_none, Nat.max_self]
        dsimp only
        rw [hstay]
        exact ih s

/-! ## Behind the end -/

/-- The state with its loop stopped: unless it has handed over a result, it ends without one. -/
def stopLoop (s : WaitState) : WaitState :=
  match s.loop.result? with
  | some _ => s
  | none => { s with loop := .crashed, fetchEnd := none }

/-- What can happen behind the end of a wait. The turn in which the caller leaves lasts until it has
stopped the loop; from then on the loop may take turns again, and time may pass. -/
inductive Outlasts (w : Wait) (deadline : Nat) (s : WaitState) : WaitState → Prop
  | stop : Outlasts w deadline s (stopLoop s)
  | loop {t u : WaitState} (h : Outlasts w deadline s t) (hloop : w.loopStep? deadline t = some u) :
    Outlasts w deadline s u
  | pass {t : WaitState} (h : Outlasts w deadline s t) (time : Nat) :
    Outlasts w deadline s { t with now := max t.now time }

theorem result?_of_loopStep? (h : w.loopStep? deadline s = some t) : s.loop.result? = none := by
  cases hloop : s.loop with
  | starting | waiting | fetching => rfl
  | handed | crashed => simp [loopStep?, hloop] at h

/-- **A loop that has been stopped starts no fetch**, however long it is left behind. -/
theorem Outlasts.keeps (h : w.Outlasts deadline s t) :
    t.starts = s.starts ∧ t.ending = s.ending ∧ t.loop.result? ≠ none := by
  induction h with
  | stop =>
    unfold stopLoop
    cases hr : s.loop.result? with
    | some r => exact ⟨rfl, rfl, by simp [hr]⟩
    | none => exact ⟨rfl, rfl, nofun⟩
  | loop _ hloop ih => exact absurd (result?_of_loopStep? hloop) ih.2.2
  | pass _ time ih => exact ih

/-! ## Times -/

theorem nextTime_le {t a : Nat} (h : w.nextTime s = some t)
    (ha : w.cancelAt = some a ∨ w.dropAt = some a) : t ≤ a := by
  have hmin : [loopTime? s, w.cancelAt, w.dropAt].reduceOption.min? = some t := h
  refine (List.min?_eq_some_iff.1 hmin).2 a (List.reduceOption_mem_iff.2 ?_)
  rcases ha with ha | ha <;> simp [ha]

theorem nextTime_ne_none {a : Nat} (ha : w.cancelAt = some a ∨ w.dropAt = some a) :
    w.nextTime s ≠ none := by
  intro h
  have hmin : [loopTime? s, w.cancelAt, w.dropAt].reduceOption.min? = none := h
  have hmem : a ∈ [loopTime? s, w.cancelAt, w.dropAt].reduceOption := by
    rw [List.reduceOption_mem_iff]
    rcases ha with ha | ha <;> simp [ha]
  rw [List.min?_eq_none_iff.1 hmin] at hmem
  cases hmem

/-! ## Waits that are not given up -/

def undisturbed (w : Wait) : Wait :=
  { w with cancelAt := none, dropAt := none }

theorem endedBy_undisturbed {time : Nat} {starts : List Nat} :
    w.undisturbed.EndedBy time starts ↔ w.EndedBy time starts := by
  induction starts generalizing time with
  | nil => exact Iff.rfl
  | cons start earlier ih => exact and_congr Iff.rfl ih

theorem stands_undisturbed (loop : Loop) :
    w.undisturbed.Stands deadline s loop ↔ w.Stands deadline s loop := by
  cases loop <;> simp only [Stands, endedBy_undisturbed] <;> exact Iff.rfl

theorem sound_undisturbed (hopen : s.ending = none) :
    w.undisturbed.Sound deadline s ↔ w.Sound deadline s := by
  have hleft : ∀ w' : Wait, ∀ e, s.ending = some e → w'.callerView s = some e := by
    intro w' e he
    rw [hopen] at he
    cases he
  constructor
  · rintro ⟨hstands, htimely, -⟩
    exact ⟨(stands_undisturbed _).1 hstands,
      fun time hlate hall => htimely time hlate (endedBy_undisturbed.2 hall), hleft w⟩
  · rintro ⟨hstands, htimely, -⟩
    exact ⟨(stands_undisturbed _).2 hstands,
      fun time hlate hall => htimely time hlate (endedBy_undisturbed.1 hall), hleft _⟩

theorem next_undisturbed (h : w.loopStep? deadline s = some t) :
    w.undisturbed.Next deadline s t := by
  have hview : w.undisturbed.callerView s = none := by
    rw [callerView_eq_map rfl rfl, result?_of_loopStep? h]
    rfl
  exact next_of_loopStep? hview h

theorem frame_of_loopStep? (h : w.loopStep? deadline s = some t) :
    t.now = s.now ∧ t.ending = s.ending := by
  cases next_undisturbed h with
  | leave hview =>
    rw [callerView_eq_map rfl rfl, result?_of_loopStep? h] at hview
    cases hview
  | pass hquiet =>
    rw [isReady, Bool.or_eq_false_iff] at hquiet
    exact absurd (Option.isSome_iff_exists.2 ⟨_, h⟩) (Bool.eq_false_iff.1 hquiet.2)
  | start | timeOut | fetch | fetched | stuck => exact ⟨rfl, rfl⟩

theorem ending_of_loopStep? (hopen : s.ending = none) (h : w.loopStep? deadline s = some t) :
    t.ending = none :=
  (frame_of_loopStep? h).2.trans hopen

/-- **What holds of a wait at all times holds in every order of turns.** -/
theorem Reaches.sound (h : w.Reaches deadline {} s) (hopen : s.ending = none) :
    w.Sound deadline s := by
  induction h with
  | refl => exact sound_start w deadline
  | @tail t u h hbefore hnext ih =>
    have hsound := ih hbefore
    cases hnext with
    | take | cancel | drop => cases hopen
    | loop hwaits hloop =>
      have hkept := (sound_undisturbed hbefore).2 hsound
      exact (sound_undisturbed hopen).1 (hkept.next hbefore (next_undisturbed hloop))
    | pass hquiet ht => exact hsound.next hbefore (.pass hquiet ht)

/-! ## How long waits go on -/

/-- How many turns a wait still has at most: time takes one between two of the loop. -/
def turnsLeft (w : Wait) (deadline : Nat) (s : WaitState) : Nat :=
  match s.ending with
  | some _ => 0
  | none => 2 * w.stepsOf deadline s s.loop + if w.isReady deadline s then 0 else 1

theorem turnsLeft_of_open (h : s.ending = none) : w.turnsLeft deadline s =
    2 * w.stepsOf deadline s s.loop + if w.isReady deadline s then 0 else 1 := by
  unfold turnsLeft
  rw [h]

theorem stepsOf_lt_of_loopStep? (h : w.Sound deadline s) (hopen : s.ending = none)
    (hloop : w.loopStep? deadline s = some t) :
    w.stepsOf deadline t t.loop < w.stepsOf deadline s s.loop := by
  have hready : w.undisturbed.isReady deadline s = true := by
    rw [isReady, Bool.or_eq_true]
    exact .inr (Option.isSome_iff_exists.2 ⟨t, hloop⟩)
  rcases ((sound_undisturbed hopen).2 h).stepsLeft_lt hopen (next_undisturbed hloop) with
    hlt | hended | ⟨hquiet, -⟩
  · rw [stepsLeft_of_open hopen, stepsLeft_of_open (ending_of_loopStep? hopen hloop), hready,
      if_pos rfl, Nat.add_zero] at hlt
    exact Nat.lt_of_le_of_lt (Nat.le_add_right _ _) hlt
  · rw [hopen] at hended
    cases hended
  · rw [hready] at hquiet
    cases hquiet

/-- **Each turn brings a wait nearer to its end**, whoever takes it. -/
theorem turnsLeft_lt (h : w.Sound deadline s) (hopen : s.ending = none)
    (hnext : w.Happens deadline s t) : w.turnsLeft deadline t < w.turnsLeft deadline s := by
  have hpos : 0 < w.stepsOf deadline s s.loop := stepsOf_pos s s.loop
  rw [turnsLeft_of_open hopen]
  cases hnext with
  | take | cancel | drop =>
    show 0 < _
    omega
  | loop hwaits hloop =>
    have hlt := stepsOf_lt_of_loopStep? h hopen hloop
    rw [turnsLeft_of_open (ending_of_loopStep? hopen hloop)]
    split <;> omega
  | @pass time hquiet ht =>
    have hready : w.isReady deadline { s with now := max s.now time } = true := isReady_pass ht
    have hsame : w.stepsOf deadline { s with now := max s.now time } s.loop =
        w.stepsOf deadline s s.loop := by cases s.loop <;> rfl
    have hlater : w.turnsLeft deadline { s with now := max s.now time } =
        2 * w.stepsOf deadline { s with now := max s.now time } s.loop + _ :=
      turnsLeft_of_open hopen
    rw [hready, if_pos rfl, hsame] at hlater
    rw [hlater, hquiet, if_neg Bool.false_ne_true]
    omega

/-- **No order of turns goes on for ever.** -/
theorem not_endless (f : Nat → WaitState) (hstart : f 0 = {}) :
    ¬ ∀ n, (f n).ending = none ∧ w.Happens deadline (f n) (f (n + 1)) := by
  intro hall
  have hreaches : ∀ n, w.Reaches deadline {} (f n) := by
    intro n
    induction n with
    | zero =>
      rw [hstart]
      exact .refl
    | succ n ih => exact .tail ih (hall n).1 (hall n).2
  have hdown : ∀ n, w.turnsLeft deadline (f n) + n ≤ w.turnsLeft deadline (f 0) := by
    intro n
    induction n with
    | zero => exact Nat.le_refl _
    | succ n ih =>
      have hlt := turnsLeft_lt ((hreaches n).sound (hall n).1) (hall n).1 (hall n).2
      omega
  have hlast := hdown (w.turnsLeft deadline (f 0) + 1)
  omega

/-! ## What waits end with -/

/-- Where a result comes from: the deadline, a loop that was lost, or the last fetch. -/
def Told (w : Wait) (s : WaitState) (r : Except Failure WaitOutcome) : Prop :=
  r = .ok .timedOut ∨ r = .error Loop.lost ∨ ∃ last earlier, s.starts = last :: earlier ∧
    (w.fetch earlier.length last).yield.decides = some r

def Left (w : Wait) (s : WaitState) : Ending → Prop
  | .result r => s.loop.result? = some r ∨
    (r = .error .cancelled ∧ s.loop.result? = none ∧ w.cancelAt = some s.now)
  | .dropped => w.dropAt = some s.now

/-- What holds of a wait in every order of turns. Time does not pass a caller who gives it up. -/
structure Orderly (w : Wait) (s : WaitState) : Prop where
  given : ∀ a, w.cancelAt = some a ∨ w.dropAt = some a → s.now ≤ a
  refused : w.cancelAt = some 0 → s.loop = .starting ∧ s.starts = []
  told : ∀ r, s.loop.result? = some r → w.Told s r
  left : ∀ e, s.ending = some e → w.Left s e

theorem orderly_start (w : Wait) : w.Orderly {} where
  given a _ := Nat.zero_le a
  refused _ := ⟨rfl, rfl⟩
  told := nofun
  left := nofun

theorem eq_now_of_hasCome {time : Option Nat} {now : Nat} (hcome : hasCome time now = true)
    (hbound : ∀ a, time = some a → now ≤ a) : time = some now := by
  cases time with
  | none => cases hcome
  | some a => rw [Nat.le_antisymm (of_decide_eq_true hcome) (hbound a rfl)]

theorem told_of_loopStep? (h : w.Sound deadline s) (hloop : w.loopStep? deadline s = some t)
    {r : Except Failure WaitOutcome} (hr : t.loop.result? = some r) : w.Told t r := by
  cases next_undisturbed hloop with
  | leave hview =>
    rw [callerView_eq_map rfl rfl, result?_of_loopStep? hloop] at hview
    cases hview
  | start hview hstarting =>
    dsimp only at hr
    split at hr
    · exact .inr (.inl (Option.some.inj hr).symm)
    · cases hr
  | timeOut => exact .inl (Option.some.inj hr).symm
  | fetch => cases hr
  | @fetched next hview hfetching hcome =>
    have hstands := h.stands
    rw [hfetching] at hstands
    obtain ⟨-, -, -, last, earlier, hstarts, -, -, -, hyield, -⟩ := hstands
    rw [hfetching, hyield] at hr
    refine .inr (.inr ⟨last, earlier, hstarts, ?_⟩)
    cases hdecides : (w.fetch earlier.length last).yield.decides with
    | none =>
      rw [fetched_of_open hdecides] at hr
      cases hr
    | some r' => rw [← hr, result?_fetched hdecides]
  | pass | stuck =>
    have hnone := result?_of_loopStep? hloop
    rw [hnone] at hr
    cases hr

theorem Orderly.happens (h : w.Orderly s) (hsound : w.Sound deadline s) (hopen : s.ending = none)
    (hnext : w.Happens deadline s t) : w.Orderly t := by
  obtain ⟨hgiven, hrefused, htold, -⟩ := h
  cases hnext with
  | take hr => exact ⟨hgiven, hrefused, htold, fun e he => by cases he; exact .inl hr⟩
  | cancel hr hcome =>
    refine ⟨hgiven, hrefused, htold, fun e he => ?_⟩
    cases he
    exact .inr ⟨rfl, hr, eq_now_of_hasCome hcome fun a ha => hgiven a (.inl ha)⟩
  | drop hcome =>
    refine ⟨hgiven, hrefused, htold, fun e he => ?_⟩
    cases he
    exact eq_now_of_hasCome hcome fun a ha => hgiven a (.inr ha)
  | loop hwaits hloop =>
    have hnow := (frame_of_loopStep? hloop).1
    refine ⟨fun a ha => hnow ▸ hgiven a ha, fun hzero => ?_,
      fun r hr => told_of_loopStep? hsound hloop hr, fun e he => ?_⟩
    · -- The loop has not run.
      have hcome := hwaits (hrefused hzero).1
      rw [hzero] at hcome
      cases hcome
    · rw [ending_of_loopStep? hopen hloop] at he
      cases he
  | @pass time hquiet ht =>
    refine ⟨fun a ha => Nat.max_le.2 ⟨hgiven a ha, nextTime_le ht ha⟩, hrefused, htold,
      fun e he => ?_⟩
    have hnone : s.ending = some e := he
    rw [hopen] at hnone
    cases hnone

theorem Reaches.orderly (h : w.Reaches deadline {} s) : w.Orderly s := by
  induction h with
  | refl => exact orderly_start w
  | tail h hopen hnext ih => exact ih.happens (h.sound hopen) hopen hnext

theorem eq_failure_of_decides {y : Yield} {f : Failure} (h : y.decides = some (.error f))
    (hlost : f ≠ Loop.lost) : y = .failure f := by
  cases y with
  | batch b => cases hempty : b.isEmpty <;> simp [Yield.decides, hempty] at h
  | failure f' =>
    cases h
    rfl
  | crash =>
    cases h
    exact absurd rfl hlost

/-- **A caller who gives a wait up tears it down**, in every order of turns, if the timer can tell
the deadline. No order goes on for ever, and once a wait has ended its loop is stopped and starts no
fetch any more, however much time passes. Before that, time does not pass a cancellation or a
departure: a token cancelled beforehand keeps the wait from starting a fetch; otherwise the caller
gets the result that was handed over, or leaves at that very time. A token that is not cancelled
never tells the caller that it was, but a fetch may. -/
theorem torn_down (w : Wait) (htimeout : w.timeout.seconds ≤ maxTimeout) :
    (∃ s, w.run? = some s ∧ w.Reaches w.timeout.nanoseconds {} s ∧
      ∀ a, w.cancelAt = some a ∨ w.dropAt = some a → s.ending.isSome = true) ∧
    (∀ f : Nat → WaitState, f 0 = {} → ¬ ∀ n, (f n).ending = none ∧
      w.Happens w.timeout.nanoseconds (f n) (f (n + 1))) ∧
    ∀ s, w.Reaches w.timeout.nanoseconds {} s →
      (∀ e, s.ending = some e → (∀ t, w.Reaches w.timeout.nanoseconds s t → t = s) ∧
        ∀ t, w.Outlasts w.timeout.nanoseconds s t → t.starts = s.starts ∧ t.ending = some e) ∧
      (∀ a, w.cancelAt = some a ∨ w.dropAt = some a → s.now ≤ a ∧
        (s.ending = none → ∃ t, w.Happens w.timeout.nanoseconds s t)) ∧
      (w.cancelAt = some 0 → s.starts = [] ∧
        ∀ r, s.ending = some (.result r) → r = .error .cancelled) ∧
      (∀ r, s.ending = some (.result r) → s.loop.result? = some r ∨
        (r = .error .cancelled ∧ s.loop.result? = none ∧ w.cancelAt = some s.now)) ∧
      (s.ending = some .dropped → w.dropAt = some s.now) ∧
      (w.cancelAt = none → s.ending = some (.result (.error .cancelled)) →
        ∃ last earlier, s.starts = last :: earlier ∧
          (w.fetch earlier.length last).yield = .failure .cancelled) := by
  refine ⟨?_, not_endless, fun s hs => ?_⟩
  · obtain ⟨s, hrun⟩ := (exists_run?_iff w).2 htimeout
    have hreaches : w.Reaches w.timeout.nanoseconds {} s := by
      rw [eq_runFor_of_run? hrun]
      exact reaches_runFor w _ _ _
    refine ⟨s, hrun, hreaches, fun a ha => ?_⟩
    rcases (run?_eq_some hrun).2 with hended | ⟨-, hnever⟩
    · exact hended
    · exact absurd hnever (nextTime_ne_none ha)
  · have horderly := hs.orderly
    refine ⟨fun e he => ⟨fun t ht => ht.eq_of_ending he, fun t ht => ?_⟩,
      fun a ha => ⟨horderly.given a ha, fun hopen => ?_⟩, fun hzero => ?_,
      fun r hr => horderly.left _ hr, fun hr => horderly.left _ hr, fun hnever hr => ?_⟩
    · obtain ⟨hstarts, hending, -⟩ := ht.keeps
      exact ⟨hstarts, hending.trans he⟩
    · rcases happens_step (w := w) hopen with hnext | ⟨-, hnone⟩
      · exact ⟨_, hnext⟩
      · exact absurd hnone (nextTime_ne_none ha)
    · obtain ⟨hloop, hstarts⟩ := horderly.refused hzero
      refine ⟨hstarts, fun r hr => ?_⟩
      rcases horderly.left _ hr with hhanded | ⟨hr, -, -⟩
      · rw [hloop] at hhanded
        cases hhanded
      · exact hr
    · rcases horderly.left _ hr with hhanded | ⟨-, -, hcancelled⟩
      · rcases horderly.told _ hhanded with hlate | hlost | ⟨last, earlier, hstarts, hdecides⟩
        · cases hlate
        · cases hlost
        · exact ⟨last, earlier, hstarts, eq_failure_of_decides hdecides (by decide)⟩
      · rw [hnever] at hcancelled
        cases hcancelled

/-- A token cancelled amid a fetch ends the wait at once. -/
theorem torn_down_amid_fetch :
    ∃ s, Wait.run? { lateWait (.empty none) 700 with cancelAt := some 500 } = some s ∧
      s.ending = some (.result (.error .cancelled)) ∧ s.now = 500 := by
  obtain ⟨⟨s, hrun, hreaches, hended⟩, -, hall⟩ :=
    torn_down { lateWait (.empty none) 700 with cancelAt := some 500 } (by decide)
  have hidle : (Wait.run? { lateWait (.empty none) 700 with cancelAt := some 500 }).map
      (·.loop.result?.isSome) = some false := by decide +kernel
  rw [hrun, Option.map_some, Option.some.injEq] at hidle
  obtain ⟨-, -, -, hresult, hdropped, -⟩ := hall s hreaches
  obtain ⟨e, he⟩ := Option.isSome_iff_exists.1 (hended 500 (.inl rfl))
  cases e with
  | result r =>
    rcases hresult r he with hhanded | ⟨rfl, -, hnow⟩
    · rw [hhanded] at hidle
      cases hidle
    · exact ⟨s, hrun, he, (Option.some.inj hnow).symm⟩
  | dropped => cases hdropped he

/-- A fetch that fails as cancelled tells so to a caller whose token is not. -/
theorem cancelled_by_fetch :
    ¬ ∀ (w : Wait) (s : WaitState), w.cancelAt = none → w.run? = some s →
      s.ending ≠ some (.result (.error .cancelled)) := by
  intro hall
  exact hall { lateWait (.empty none) 0 with fetch := fun _ _ => ⟨some 0, .failure .cancelled⟩ }
    _ rfl rfl rfl

end Wait

end NotificationQueue.LongPoll
