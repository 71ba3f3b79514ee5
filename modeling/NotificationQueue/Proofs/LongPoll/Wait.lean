import Mathlib.Data.List.ReduceOption
import NotificationQueue.LongPoll

/-!
Waits, step by step. A step is taken by the caller, by the loop, or by time; each loop state tells
how often has been fetched and that all fetches but the one under way have ended. A wait goes on
until its caller leaves it or a fetch never returns, whatever number of steps that takes.
-/
namespace NotificationQueue.LongPoll
set_option autoImplicit false

/-! ## Ticks -/

theorem le_nextDue (tick : Nat) {due handled : Nat} (h : due ≤ handled) :
    due + tick ≤ nextDue tick due handled := by
  unfold nextDue
  split
  · exact Nat.le_refl _
  · exact Nat.add_le_add_right h tick

theorem nextDue_le (tick : Nat) {due handled : Nat} (h : due ≤ handled) :
    nextDue tick due handled ≤ handled + tick := by
  unfold nextDue
  split
  · omega
  · exact Nat.le_refl _

theorem le_wake (due : Nat) : due ≤ wake due * Duration.perMilli := by
  unfold wake Duration.perMilli
  omega

theorem wake_mono {a b : Nat} (h : a ≤ b) : wake a ≤ wake b := by
  unfold wake
  exact Nat.div_le_div_right (by omega)

namespace Wait

variable {w : Wait} {deadline : Nat} {s s' : WaitState}

/-! ## Steps -/

def startFetch (w : Wait) (s : WaitState) (next : Nat) : WaitState :=
  { s with
    loop := .fetching next
    fetchEnd := (w.fetch s.starts.length s.now).delay.map (s.now + ·)
    yield := (w.fetch s.starts.length s.now).yield
    starts := s.now :: s.starts }

def isReady (w : Wait) (deadline : Nat) (s : WaitState) : Bool :=
  (w.callerView s).isSome || (w.loopStep? deadline s).isSome

inductive Next (w : Wait) (deadline : Nat) (s : WaitState) : WaitState → Prop
  | leave {e : Ending} (hview : w.callerView s = some e) :
    Next w deadline s { s with ending := some e }
  | start (hview : w.callerView s = none) (hloop : s.loop = .starting) :
    Next w deadline s { s with
      loop := if w.interval.isZero then .crashed else .waiting (s.now * Duration.perMilli) }
  | timeOut {due : Nat} (hview : w.callerView s = none) (hloop : s.loop = .waiting due)
    (hdue : due ≤ s.now * Duration.perMilli) (hlate : deadline ≤ s.now * Duration.perMilli) :
    Next w deadline s { s with loop := .handed (.ok .timedOut) }
  | fetch {due : Nat} (hview : w.callerView s = none) (hloop : s.loop = .waiting due)
    (hdue : due ≤ s.now * Duration.perMilli) (hearly : s.now * Duration.perMilli < deadline) :
    Next w deadline s (w.startFetch s
      (nextDue w.interval.nanoseconds due (s.now * Duration.perMilli)))
  | fetched {next : Nat} (hview : w.callerView s = none) (hloop : s.loop = .fetching next)
    (hcome : hasCome s.fetchEnd s.now = true) :
    Next w deadline s { s with loop := s.loop.fetched s.yield }
  | pass {t : Nat} (hquiet : w.isReady deadline s = false) (ht : w.nextTime s = some t) :
    Next w deadline s { s with now := max s.now t }
  | stuck (hquiet : w.isReady deadline s = false) (hnever : w.nextTime s = none) :
    Next w deadline s s

theorem next_of_loopStep? (hview : w.callerView s = none)
    (h : w.loopStep? deadline s = some s') : w.Next deadline s s' := by
  unfold loopStep? at h
  split at h
  · next hloop =>
    cases h
    rw [hloop]
    exact .start hview hloop
  · next due hloop =>
    split at h
    · cases h
    · next hcome =>
      have hdue : due ≤ s.now * Duration.perMilli := Nat.not_lt.1 hcome
      rw [hloop] at h
      by_cases hlate : deadline ≤ s.now * Duration.perMilli
      · simp only [Loop.tick, if_neg hcome, if_pos hlate] at h
        cases h
        exact .timeOut hview hloop hdue hlate
      · simp only [Loop.tick, if_neg hcome, if_neg hlate] at h
        cases h
        exact .fetch hview hloop hdue (Nat.not_le.1 hlate)
  · next next hloop =>
    split at h
    · next hcome =>
      cases h
      exact .fetched hview hloop hcome
    · cases h
  · cases h

theorem step_of_quiet (h : s.ending = none) (hquiet : w.isReady deadline s = false) :
    w.step deadline s = { s with now := max s.now ((w.nextTime s).getD s.now) } := by
  rw [isReady, Bool.or_eq_false_iff, Option.isSome_eq_false_iff, Option.isNone_iff_eq_none,
    Option.isSome_eq_false_iff, Option.isNone_iff_eq_none] at hquiet
  unfold step
  split
  · next e he =>
    rw [h] at he
    cases he
  · rw [hquiet.1, hquiet.2]

/-- **Every step of a wait that has not ended is the caller's, the loop's, or time's.** -/
theorem next_step (h : s.ending = none) : w.Next deadline s (w.step deadline s) := by
  cases hview : w.callerView s with
  | some e =>
    simp only [step, h, hview]
    exact .leave hview
  | none =>
    cases hloop : w.loopStep? deadline s with
    | some after =>
      simp only [step, h, hview, hloop]
      exact next_of_loopStep? hview hloop
    | none =>
      have hquiet : w.isReady deadline s = false := by simp [isReady, hview, hloop]
      rw [step_of_quiet h hquiet]
      cases ht : w.nextTime s with
      | some t => exact .pass hquiet ht
      | none =>
        rw [Option.getD_none, Nat.max_self]
        exact .stuck hquiet ht

/-! ## Runs -/

/-- Nothing will change any more: the caller has left, or a fetch never returns. -/
def Settled (w : Wait) (deadline : Nat) (s : WaitState) : Prop :=
  s.ending.isSome = true ∨ (w.isReady deadline s = false ∧ w.nextTime s = none)

theorem runFor_of_settled (h : w.Settled deadline s) (n : Nat) : w.runFor deadline s n = s := by
  induction n with
  | zero => rfl
  | succ n ih =>
    unfold runFor
    cases hending : s.ending with
    | some e => rfl
    | none =>
      rcases h with hsome | ⟨hquiet, hnever⟩
      · rw [hending] at hsome
        cases hsome
      · have hstay : w.step deadline s = s := by
          rw [step_of_quiet hending hquiet, hnever, Option.getD_none, Nat.max_self]
        dsimp only
        rw [hstay]
        exact ih

theorem runFor_keeps {P : WaitState → Prop}
    (hstep : ∀ {s s'}, s.ending = none → P s → w.Next deadline s s' → P s') (h : P s) (n : Nat) :
    P (w.runFor deadline s n) := by
  induction n generalizing s with
  | zero => exact h
  | succ n ih =>
    unfold runFor
    cases hending : s.ending with
    | some e => exact h
    | none => exact ih (hstep hending h (next_step hending))

/-! ## The time at which something happens next -/

def loopTime? (s : WaitState) : Option Nat :=
  match s.loop with
  | .waiting due => some (wake due)
  | .fetching _ => s.fetchEnd
  | _ => none

theorem nextTime_eq_some {t : Nat} (h : w.nextTime s = some t) :
    (loopTime? s = some t ∨ w.cancelAt = some t ∨ w.dropAt = some t) ∧
      ∀ u, loopTime? s = some u → t ≤ u := by
  have hmin : [loopTime? s, w.cancelAt, w.dropAt].reduceOption.min? = some t := h
  obtain ⟨hmem, hle⟩ := List.min?_eq_some_iff.1 hmin
  constructor
  · rw [List.reduceOption_mem_iff] at hmem
    simp only [List.mem_cons, List.not_mem_nil, or_false] at hmem
    rcases hmem with hloop | hcancel | hdrop
    · exact .inl hloop.symm
    · exact .inr (.inl hcancel.symm)
    · exact .inr (.inr hdrop.symm)
  · intro u hu
    refine hle u (List.reduceOption_mem_iff.2 ?_)
    rw [hu]
    exact List.mem_cons_self

theorem loopTime?_of_nextTime_eq_none (h : w.nextTime s = none) : loopTime? s = none := by
  have hmin : [loopTime? s, w.cancelAt, w.dropAt].reduceOption.min? = none := h
  have hnil := List.min?_eq_none_iff.1 hmin
  by_contra hsome
  obtain ⟨u, hu⟩ := Option.ne_none_iff_exists'.1 hsome
  have hmem : u ∈ [loopTime? s, w.cancelAt, w.dropAt].reduceOption := by
    rw [List.reduceOption_mem_iff, hu]
    exact List.mem_cons_self
  rw [hnil] at hmem
  cases hmem

theorem hasCome_of_le {t now : Nat} (h : t ≤ now) : hasCome (some t) now = true :=
  decide_eq_true h

theorem isReady_pass {t : Nat} (ht : w.nextTime s = some t) :
    w.isReady deadline { s with now := max s.now t } = true := by
  have hle : t ≤ max s.now t := Nat.le_max_right _ _
  unfold isReady
  rw [Bool.or_eq_true]
  by_cases hresult : s.loop.result?.isSome = true
  · left
    obtain ⟨r, hr⟩ := Option.isSome_iff_exists.1 hresult
    simp only [callerView, hr, Option.isSome_some]
  rw [Option.not_isSome_iff_eq_none] at hresult
  rcases (nextTime_eq_some ht).1 with hloop | hcancel | hdrop
  · right
    unfold loopTime? at hloop
    split at hloop
    · next due hwaiting =>
      obtain rfl : wake due = t := Option.some.inj hloop
      have hcome : ¬ max s.now (wake due) * Duration.perMilli < due := by
        have hdue := le_wake due
        have hmul := Nat.mul_le_mul_right Duration.perMilli hle
        omega
      simp only [loopStep?, hwaiting, if_neg hcome]
      split <;> rfl
    · next next hfetching =>
      have hcome : hasCome s.fetchEnd (max s.now t) = true := hloop ▸ hasCome_of_le hle
      simp only [loopStep?, hfetching, hcome, if_true, Option.isSome_some]
    · cases hloop
  · left
    have hcome : hasCome w.cancelAt (max s.now t) = true := hcancel ▸ hasCome_of_le hle
    simp only [callerView, hresult, hcome, if_true, Option.isSome_some]
  · left
    have hcome : hasCome w.dropAt (max s.now t) = true := hdrop ▸ hasCome_of_le hle
    simp only [callerView, hresult, hcome, if_true]
    split <;> rfl

/-! ## Fetches -/

/-- All of some fetches, given by their starts, the last first, end by a reading of the timer. -/
def EndedBy (w : Wait) (t : Nat) : List Nat → Prop
  | [] => True
  | start :: earlier =>
    (∃ d, (w.fetch earlier.length start).delay = some d ∧ start + d ≤ t) ∧ w.EndedBy t earlier

theorem EndedBy.mono {starts : List Nat} {t u : Nat} (h : w.EndedBy t starts) (hle : t ≤ u) :
    w.EndedBy u starts := by
  induction starts with
  | nil => trivial
  | cons start earlier ih =>
    obtain ⟨⟨d, hd, hend⟩, hearlier⟩ := h
    exact ⟨⟨d, hd, Nat.le_trans hend hle⟩, ih hearlier⟩

/-- How far a wait has come by the time that its loop is in a state: the next tick is not due before
as many ticks as fetches, nor more than a tick after the deadline. -/
def Stands (w : Wait) (deadline : Nat) (s : WaitState) : Loop → Prop
  | .starting => s.now = 0 ∧ s.starts = []
  | .waiting due =>
    w.interval.isZero = false ∧ s.starts.length * w.interval.nanoseconds ≤ due ∧
      due ≤ deadline + w.interval.nanoseconds ∧ w.EndedBy s.now s.starts
  | .fetching next =>
    w.interval.isZero = false ∧ s.starts.length * w.interval.nanoseconds ≤ next ∧
      next ≤ deadline + w.interval.nanoseconds ∧
      ∃ start earlier, s.starts = start :: earlier ∧ start ≤ s.now ∧
        start * Duration.perMilli < deadline ∧
        s.fetchEnd = (w.fetch earlier.length start).delay.map (start + ·) ∧
        s.yield = (w.fetch earlier.length start).yield ∧ w.EndedBy start earlier
  | .handed r =>
    w.EndedBy s.now s.starts ∧ (r = .ok .timedOut → deadline ≤ s.now * Duration.perMilli)
  | .crashed => w.EndedBy s.now s.starts

/-- What holds of a wait at all times. Time is not ahead of both the last tick that can be due and
the end of a fetch. -/
structure Sound (w : Wait) (deadline : Nat) (s : WaitState) : Prop where
  stands : w.Stands deadline s s.loop
  timely : ∀ t, wake (deadline + w.interval.nanoseconds) ≤ t → w.EndedBy t s.starts → s.now ≤ t
  left : ∀ e, s.ending = some e → w.callerView s = some e

theorem sound_start (w : Wait) (deadline : Nat) : w.Sound deadline {} where
  stands := ⟨rfl, rfl⟩
  timely t _ _ := Nat.zero_le t
  left := nofun

theorem stands_fetched {next : Nat} (h : w.Stands deadline s (.fetching next))
    (hcome : hasCome s.fetchEnd s.now = true) :
    w.Stands deadline s ((Loop.fetching next).fetched s.yield) := by
  obtain ⟨htick, hcount, hnext, start, earlier, hstarts, hle, -, hend, -, hearlier⟩ := h
  have hended : w.EndedBy s.now s.starts := by
    rw [hstarts]
    cases hdelay : (w.fetch earlier.length start).delay with
    | none =>
      rw [hend, hdelay] at hcome
      cases hcome
    | some d =>
      rw [hend, hdelay] at hcome
      exact ⟨⟨d, hdelay, of_decide_eq_true hcome⟩, hearlier.mono hle⟩
  cases s.yield with
  | batch b =>
    cases hempty : b.isEmpty with
    | true =>
      simp only [Loop.fetched, hempty, if_true]
      exact ⟨htick, hcount, hnext, hended⟩
    | false =>
      simp only [Loop.fetched, hempty, Bool.false_eq_true, if_false]
      exact ⟨hended, nofun⟩
  | failure f => exact ⟨hended, nofun⟩
  | crash => exact hended

theorem Sound.next (h : w.Sound deadline s) (hending : s.ending = none)
    (hnext : w.Next deadline s s') : w.Sound deadline s' := by
  obtain ⟨hstands, htimely, -⟩ := h
  have hleft : ∀ {t : WaitState}, t.ending = s.ending →
      ∀ e, t.ending = some e → w.callerView t = some e := by
    intro t ht e he
    rw [ht, hending] at he
    cases he
  cases hnext with
  | leave hview =>
    refine ⟨hstands, htimely, fun e he => ?_⟩
    cases he
    exact hview
  | start hview hloop =>
    rw [hloop] at hstands
    obtain ⟨hnow, hstarts⟩ := hstands
    refine ⟨?_, htimely, hleft rfl⟩
    cases hzero : w.interval.isZero with
    | true =>
      show w.EndedBy s.now s.starts
      rw [hstarts]
      trivial
    | false =>
      refine ⟨hzero, ?_, ?_, ?_⟩
      · rw [hstarts, List.length_nil]
        omega
      · rw [hnow]
        omega
      · rw [hstarts]
        trivial
  | timeOut hview hloop hdue hlate =>
    rw [hloop] at hstands
    exact ⟨⟨hstands.2.2.2, fun _ => hlate⟩, htimely, hleft rfl⟩
  | @fetch due hview hloop hdue hearly =>
    rw [hloop] at hstands
    obtain ⟨htick, hcount, hbound, hended⟩ := hstands
    have hfrom := le_nextDue w.interval.nanoseconds hdue
    have hto := nextDue_le w.interval.nanoseconds hdue
    refine ⟨⟨htick, ?_, ?_, s.now, s.starts, rfl, Nat.le_refl _, hearly, rfl, rfl, hended⟩,
      fun t hlate hall => htimely t hlate hall.2, hleft rfl⟩
    · show (s.starts.length + 1) * w.interval.nanoseconds ≤ _
      rw [Nat.succ_mul]
      omega
    · omega
  | @fetched next hview hloop hcome =>
    rw [hloop] at hstands
    refine ⟨?_, htimely, hleft rfl⟩
    rw [hloop]
    exact stands_fetched hstands hcome
  | @pass t hquiet ht =>
    obtain ⟨-, hle⟩ := nextTime_eq_some ht
    have hlater : s.now ≤ max s.now t := Nat.le_max_left _ _
    refine ⟨?_, fun bound hlate hall => ?_, hleft rfl⟩
    · show w.Stands deadline { s with now := max s.now t } s.loop
      cases hloop : s.loop with
      | starting =>
        rw [isReady, Bool.or_eq_false_iff] at hquiet
        simp [loopStep?, hloop] at hquiet
      | waiting due =>
        rw [hloop] at hstands
        exact ⟨hstands.1, hstands.2.1, hstands.2.2.1, hstands.2.2.2.mono hlater⟩
      | fetching next =>
        rw [hloop] at hstands
        obtain ⟨htick, hcount, hbound, start, earlier, hstarts, hstart, hrest⟩ := hstands
        exact ⟨htick, hcount, hbound, start, earlier, hstarts, Nat.le_trans hstart hlater, hrest⟩
      | handed r =>
        rw [hloop] at hstands
        refine ⟨hstands.1.mono hlater, fun hr => ?_⟩
        exact Nat.le_trans (hstands.2 hr) (Nat.mul_le_mul_right _ hlater)
      | crashed =>
        rw [hloop] at hstands
        exact EndedBy.mono hstands hlater
    · have hnow := htimely bound hlate hall
      have hcome : t ≤ bound := by
        cases hloop : s.loop with
        | waiting due =>
          rw [hloop] at hstands
          have hdue := hle (wake due) (by rw [loopTime?, hloop])
          have hwake := wake_mono hstands.2.2.1
          omega
        | fetching next =>
          rw [hloop] at hstands
          obtain ⟨-, -, -, start, earlier, hstarts, -, -, hend, -⟩ := hstands
          have hall' : w.EndedBy bound (start :: earlier) := hstarts ▸ hall
          obtain ⟨⟨d, hdelay, hd⟩, -⟩ := hall'
          rw [hdelay] at hend
          have hfetch := hle (start + d) (by rw [loopTime?, hloop]; exact hend)
          omega
        | starting | handed | crashed =>
          have hready : w.isReady deadline s = true := by
            simp [isReady, callerView, loopStep?, hloop, Loop.result?]
          rw [hready] at hquiet
          cases hquiet
      exact Nat.max_le.2 ⟨hnow, hcome⟩
  | stuck => exact ⟨hstands, htimely, hleft rfl⟩

/-! ## Ends of waits -/

/-- How many fetches there can be: each but the first comes a tick after the one before at least. -/
def mostFetches (w : Wait) (deadline : Nat) : Nat :=
  deadline / w.interval.nanoseconds + 1

/-- How many steps a wait still takes at most, in the state of its loop: four a fetch. -/
def stepsOf (w : Wait) (deadline : Nat) (s : WaitState) : Loop → Nat
  | .starting => 4 * w.mostFetches deadline + 5
  | .waiting _ => 4 * (w.mostFetches deadline - s.starts.length) + 3
  | .fetching _ => 4 * (w.mostFetches deadline - s.starts.length) + 5
  | .handed _ | .crashed => 1

def stepsLeft (w : Wait) (deadline : Nat) (s : WaitState) : Nat :=
  match s.ending with
  | some _ => 0
  | none => w.stepsOf deadline s s.loop + if w.isReady deadline s then 0 else 1

theorem stepsLeft_of_open (h : s.ending = none) : w.stepsLeft deadline s =
    w.stepsOf deadline s s.loop + if w.isReady deadline s then 0 else 1 := by
  unfold stepsLeft
  rw [h]

theorem stepsLeft_le (h : s.ending = none) :
    w.stepsLeft deadline s ≤ w.stepsOf deadline s s.loop + 1 := by
  rw [stepsLeft_of_open h]
  split <;> omega

theorem stepsOf_pos (s : WaitState) (loop : Loop) : 0 < w.stepsOf deadline s loop := by
  cases loop <;> simp [stepsOf]

theorem length_lt_mostFetches {due : Nat} (h : w.Stands deadline s (.waiting due))
    (hdue : due < deadline) : s.starts.length < w.mostFetches deadline := by
  obtain ⟨htick, hcount, -⟩ := h
  have hpos : 0 < w.interval.nanoseconds := by
    rw [Duration.isZero, decide_eq_false_iff_not] at htick
    omega
  have hle : s.starts.length ≤ deadline / w.interval.nanoseconds :=
    (Nat.le_div_iff_mul_le hpos).2 (by omega)
  unfold mostFetches
  omega

/-- **Each step brings a wait nearer to its end**, unless a fetch never returns. -/
theorem Sound.stepsLeft_lt (h : w.Sound deadline s) (hending : s.ending = none)
    (hnext : w.Next deadline s s') :
    w.stepsLeft deadline s' < w.stepsLeft deadline s ∨ w.Settled deadline s := by
  have hnow : w.stepsOf deadline s s.loop ≤ w.stepsLeft deadline s := by
    rw [stepsLeft_of_open hending]
    exact Nat.le_add_right _ _
  -- A step of the loop pays for the step that time may have to take after it.
  have hpaid : ∀ {t : WaitState}, t.ending = none →
      w.stepsOf deadline t t.loop + 1 < w.stepsOf deadline s s.loop →
      w.stepsLeft deadline t < w.stepsLeft deadline s := by
    intro t ht hlt
    have hle : w.stepsLeft deadline t ≤ w.stepsOf deadline t t.loop + 1 := stepsLeft_le ht
    omega
  cases hnext with
  | leave hview =>
    left
    exact Nat.lt_of_lt_of_le (stepsOf_pos s s.loop) hnow
  | start hview hloop =>
    left
    refine hpaid hending ?_
    rw [hloop]
    cases w.interval.isZero with
    | true => simp [stepsOf]
    | false =>
      simp only [Bool.false_eq_true, if_false, stepsOf]
      omega
  | timeOut hview hloop hdue hlate =>
    left
    refine hpaid hending ?_
    rw [hloop]
    simp only [stepsOf]
    omega
  | fetch hview hloop hdue hearly =>
    left
    have hstands := h.stands
    rw [hloop] at hstands
    have hlt := length_lt_mostFetches hstands (Nat.lt_of_le_of_lt hdue hearly)
    refine hpaid hending ?_
    rw [hloop]
    simp only [stepsOf, startFetch, List.length_cons]
    omega
  | fetched hview hloop hcome =>
    left
    refine hpaid hending ?_
    rw [hloop]
    unfold Loop.fetched
    dsimp only
    split
    · split
      · simp only [stepsOf]
        omega
      · simp [stepsOf]
    · simp [stepsOf]
    · simp [stepsOf]
  | @pass t hquiet ht =>
    left
    have hready : w.isReady deadline { s with now := max s.now t } = true := isReady_pass ht
    have hsame : w.stepsOf deadline { s with now := max s.now t } s.loop =
        w.stepsOf deadline s s.loop := by cases s.loop <;> rfl
    have hlater : w.stepsLeft deadline { s with now := max s.now t } =
        w.stepsOf deadline { s with now := max s.now t } s.loop + _ := stepsLeft_of_open hending
    rw [hready, if_pos rfl, hsame] at hlater
    rw [stepsLeft_of_open hending, hquiet, hlater, if_neg Bool.false_ne_true]
    exact Nat.lt_succ_self _
  | stuck hquiet hnever => exact .inr (.inr ⟨hquiet, hnever⟩)

theorem settled_runFor (h : w.Sound deadline s) {n : Nat} (hn : w.stepsLeft deadline s ≤ n) :
    w.Settled deadline (w.runFor deadline s n) := by
  induction n generalizing s with
  | zero =>
    left
    by_contra hopen
    rw [Bool.not_eq_true, Option.isSome_eq_false_iff, Option.isNone_iff_eq_none] at hopen
    have hpos : 0 < w.stepsOf deadline s s.loop := stepsOf_pos s s.loop
    have hopen' : s.ending = none := hopen
    simp only [stepsLeft, hopen'] at hn
    omega
  | succ n ih =>
    unfold runFor
    cases hending : s.ending with
    | some e =>
      left
      rw [hending]
      rfl
    | none =>
      have hnext : w.Next deadline s (w.step deadline s) := next_step hending
      dsimp only
      rcases h.stepsLeft_lt hending hnext with hlt | hsettled
      · exact ih (h.next hending hnext) (by omega)
      · have hstay := runFor_of_settled hsettled 1
        simp only [runFor, hending] at hstay
        rw [hstay, runFor_of_settled hsettled]
        exact hsettled

theorem exists_run?_iff (w : Wait) : (∃ s, w.run? = some s) ↔ w.timeout.seconds ≤ maxTimeout := by
  unfold run? deadline?
  split
  · next hle => simpa using hle
  · next hgt => simpa using hgt

theorem eq_runFor_of_run? (h : w.run? = some s) :
    s = w.runFor w.timeout.nanoseconds {} w.enoughSteps := by
  obtain ⟨deadline, hdeadline, rfl⟩ := Option.map_eq_some_iff.1 h
  have htime : deadline = w.timeout.nanoseconds := by
    unfold deadline? at hdeadline
    split at hdeadline
    · have hsum := Option.some.inj hdeadline
      omega
    · cases hdeadline
  rw [htime]

/-- **A whole wait takes all steps that there are**, and what always holds does so at its end. -/
theorem run?_eq_some (h : w.run? = some s) :
    w.Sound w.timeout.nanoseconds s ∧ w.Settled w.timeout.nanoseconds s := by
  obtain rfl := eq_runFor_of_run? h
  have hstart := sound_start w w.timeout.nanoseconds
  refine ⟨runFor_keeps (fun hending hs hnext => Sound.next hs hending hnext) hstart _,
    settled_runFor hstart ?_⟩
  have hle : w.stepsLeft w.timeout.nanoseconds {} ≤ 4 * w.mostFetches w.timeout.nanoseconds + 6 :=
    stepsLeft_le rfl
  unfold mostFetches at hle
  unfold enoughSteps
  omega

end Wait

end NotificationQueue.LongPoll
