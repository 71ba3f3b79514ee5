import NotificationQueue.Proofs.Service.Moves

/-!
Turns of tasks. A task is taken further by its own turns alone, and stopped by moves about it alone
or, if it is the loop of a long poll, about its caller: whatever else a service does leaves it as it
is.
-/
namespace NotificationQueue
set_option autoImplicit false

/-! ## Turns -/

def Move.turn? (i : Nat) : Move → Option Answer
  | .advance j a => if j = i then some a else none
  | _ => none

theorem Move.turn?_eq_some {m : Move} {i : Nat} {a : Answer} :
    m.turn? i = some a ↔ m = .advance i a := by
  cases m with
  | advance j b =>
    rw [turn?]
    split
    · next hj => simp [hj]
    · next hj => simp [hj]
  | _ => exact ⟨nofun, nofun⟩

namespace Service

variable {s : Service} {i j : Nat} {u : Task}

/-! ## Tasks that are left alone -/

theorem setTask_of_ne (h : i ≠ j) (s : Service) (v : Task) :
    (s.setTask j v).tasks[i]? = s.tasks[i]? := by
  rw [setTask_getElem?, if_neg h]

theorem sweepAfter_of_getElem? (hu : s.tasks[i]? = some u) (query : Query) (phase : ReadPhase) :
    (s.sweepAfter query phase).tasks[i]? = some u := by
  unfold sweepAfter
  split
  · exact spawn_of_getElem? hu _
  · exact hu

theorem advanceWrite_of_ne (h : i ≠ j) (s : Service) (w : Write) (a : Answer) :
    (s.advanceWrite j w a).tasks[i]? = s.tasks[i]? := by
  unfold advanceWrite
  dsimp only
  split
  · cases a with
    | waiting => rfl
    | failed f => exact setTask_of_ne h _ _
    | done => exact setTask_of_ne h _ _
  · split
    · exact setTask_of_ne h _ _
    · exact setTask_of_ne h _ _
  · cases a with
    | waiting => rfl
    | failed f => exact setTask_of_ne h _ _
    | done => exact setTask_of_ne h _ _
  · split
    · exact setTask_of_ne h _ _
    · exact setTask_of_ne h _ _
  · rfl

theorem advanceRead_of_ne (h : i ≠ j) (hu : s.tasks[i]? = some u) (r : Read) (a : Answer) :
    (s.advanceRead j r a).tasks[i]? = some u := by
  unfold advanceRead
  split
  · exact hu
  · refine sweepAfter_of_getElem? ?_ _ _
    rw [setTask_of_ne h, hu]

theorem advanceTicker_of_ne (h : i ≠ j) (hu : s.tasks[i]? = some u) (k : Ticker) (a : Answer) :
    (s.advanceTicker j k a).tasks[i]? = some u := by
  have hset : ∀ v : Task, (s.setTask j v).tasks[i]? = some u := fun v => by
    rw [setTask_of_ne h, hu]
  unfold advanceTicker
  dsimp only
  split
  · split
    · exact sweepAfter_of_getElem? (hset _) _ _
    · exact hset _
  · exact hset _

theorem advanceProbe_of_ne (h : i ≠ j) (s : Service) (p : Probe) (a : Answer) :
    (s.advanceProbe j p a).tasks[i]? = s.tasks[i]? := by
  unfold advanceProbe
  dsimp only
  split
  · rfl
  · exact setTask_of_ne h _ _
  · exact setTask_of_ne h _ _
  · split
    · exact setTask_of_ne h _ _
    · rfl

theorem advanceDrain_of_ne (h : i ≠ j) (s : Service) (d : Drain) :
    (s.advanceDrain j d).tasks[i]? = s.tasks[i]? := by
  unfold advanceDrain
  dsimp only
  split
  · rfl
  · split
    · exact setTask_of_ne h _ _
    · split
      · exact setTask_of_ne h _ _
      · rfl

theorem advancePurger_of_ne (h : i ≠ j) (s : Service) (p : Purger) (a : Answer) :
    (s.advancePurger j p a).tasks[i]? = s.tasks[i]? := by
  unfold advancePurger
  dsimp only
  split
  · exact setTask_of_ne h _ _
  · split
    · exact setTask_of_ne h _ _
    · split
      · rfl
      · exact setTask_of_ne h _ _
  · cases a with
    | waiting => rfl
    | failed f => exact setTask_of_ne h _ _
    | done => exact setTask_of_ne h _ _
  · rfl
  · rfl

theorem Linked.ne_ticker (hl : s.Linked) (hu : s.tasks[i]? = some u) (hloop : ¬ u.IsLoop)
    {w : Waiter} (hw : s.tasks[j]? = some (.waiter w)) : i ≠ w.ticker := by
  obtain ⟨k, hk, hkloop⟩ := hl j w hw
  rintro rfl
  rw [hu] at hk
  cases hk
  exact hloop hkloop

theorem advanceWaiter_of_ne (h : i ≠ j) {w : Waiter} (hticker : i ≠ w.ticker) :
    (s.advanceWaiter j w).tasks[i]? = s.tasks[i]? := by
  have hboth : ∀ v : Task, ((s.setTask w.ticker .gone).setTask j v).tasks[i]? = s.tasks[i]? :=
    fun v => (setTask_of_ne h _ _).trans (setTask_of_ne hticker _ _)
  unfold advanceWaiter
  dsimp only
  split
  · rfl
  · split
    · split
      · exact hboth _
      · split
        · exact hboth _
        · rfl
    · rfl

theorem advance_of_ne (hu : s.tasks[i]? = some u) (h : i ≠ j)
    (hticker : ∀ w : Waiter, s.tasks[j]? = some (.waiter w) → i ≠ w.ticker) (a : Answer) :
    (s.advance j a).tasks[i]? = some u := by
  unfold advance
  split
  · rw [advanceWrite_of_ne h, hu]
  · exact advanceRead_of_ne h hu _ a
  · cases a with
    | waiting => exact hu
    | failed f => rw [setTask_of_ne h, hu]
    | done => exact (setTask_of_ne h _ _).trans hu
  · exact advanceTicker_of_ne h hu _ a
  · next w hw => rw [advanceWaiter_of_ne h (hticker w hw), hu]
  · rw [advanceProbe_of_ne h, hu]
  · rw [advanceDrain_of_ne h, hu]
  · rw [advancePurger_of_ne h, hu]
  · exact hu

theorem cancel_of_ne (h : i ≠ j) (s : Service) : (s.cancel j).tasks[i]? = s.tasks[i]? := by
  unfold cancel
  split
  · exact setTask_of_ne h _ _
  · exact setTask_of_ne h _ _
  · rfl

theorem drop_of_ne (hu : s.tasks[i]? = some u) (h : i ≠ j)
    (hticker : ∀ w : Waiter, s.tasks[j]? = some (.waiter w) → i ≠ w.ticker) :
    (s.drop j).tasks[i]? = some u := by
  unfold drop
  split
  · split
    · exact hu
    · split
      · exact (setTask_of_ne h _ _).trans hu
      · exact (setTask_of_ne h _ _).trans hu
      · exact (setTask_of_ne h _ _).trans hu
  · next w hw =>
    exact (setTask_of_ne h _ _).trans ((setTask_of_ne (hticker w hw) _ _).trans hu)
  · exact (setTask_of_ne h _ _).trans hu
  · exact hu

theorem submit_of_getElem? (hu : s.tasks[i]? = some u) (d : Draft) :
    (s.submit d).1.tasks[i]? = some u := by
  unfold submit
  dsimp only
  split
  · exact spawn_of_getElem? hu _
  · exact spawn_of_getElem? hu _

/-- **A move that is neither a task's turn nor about it leaves the task alone**, and so does one of
the caller of a long poll, unless the task is the loop of that. -/
theorem move_of_apart (hu : s.tasks[i]? = some u) {m : Move} (hturn : m.turn? i = none)
    (hcancel : m ≠ .cancel i) (hdrop : m ≠ .drop i)
    (hticker : ∀ (j : Nat) (w : Waiter), s.tasks[j]? = some (.waiter w) → i = w.ticker →
      m.turn? j = none ∧ m ≠ .drop j) : (s.move m).tasks[i]? = some u := by
  cases m with
  | publish r =>
    rw [move_publish]
    split
    · exact submit_of_getElem? hu _
    · exact hu
  | poll r cancelled =>
    simp only [move]
    split
    · next after id hp => exact next_poll? hp hu
    · exact hu
  | advance j a =>
    have h : i ≠ j := by
      rintro rfl
      simp [Move.turn?] at hturn
    refine advance_of_ne hu h (fun w hw heq => ?_) a
    have hnone := (hticker j w hw heq).1
    simp [Move.turn?] at hnone
  | cancel j =>
    have h : i ≠ j := fun heq => hcancel (heq ▸ rfl)
    exact (cancel_of_ne h s).trans hu
  | drop j =>
    have h : i ≠ j := fun heq => hdrop (heq ▸ rfl)
    exact drop_of_ne hu h fun w hw heq => (hticker j w hw heq).2 rfl
  | probe => exact spawn_of_getElem? hu _
  | shutdown => exact spawn_of_getElem? hu _
  | purgeEvery interval => exact spawn_of_getElem? hu _
  | elapse | skew => exact hu

theorem move_of_ne (hl : s.Linked) (hu : s.tasks[i]? = some u) (hloop : ¬ u.IsLoop) {m : Move}
    (hturn : m.turn? i = none) (hcancel : m ≠ .cancel i) (hdrop : m ≠ .drop i) :
    (s.move m).tasks[i]? = some u :=
  move_of_apart hu hturn hcancel hdrop fun _ _ hw heq =>
    absurd heq (hl.ne_ticker hu hloop hw)

end Service

end NotificationQueue
