import NotificationQueue.Proofs.LongPoll.Cancellation

/-!
How far apart the fetches of a wait start. A tick that is handled late by no more than the tolerance
leaves the grid as it is, so that the next one comes that much sooner; a later one moves the grid.
However many ticks a slow fetch has missed, no two fetches come closer than a tick less the
tolerance, and none waits longer than for a tick and for the fetch before.
-/
namespace NotificationQueue.LongPoll
set_option autoImplicit false

/-! ## Ticks -/

theorem le_nextDue_add_tolerance (tick due handled : Nat) :
    handled + tick ≤ nextDue tick due handled + tolerance := by
  unfold nextDue
  split <;> omega

theorem mul_perMilli_lt_of_le_wake {now due finish : Nat} (h : now ≤ max (wake due) finish) :
    now * Duration.perMilli < max due (finish * Duration.perMilli) + Duration.perMilli := by
  have hmilli : 0 < Duration.perMilli := by decide
  have hcases : now ≤ wake due ∨ now ≤ finish := by omega
  rcases hcases with hwake | hfinish
  · calc now * Duration.perMilli
      _ ≤ wake due * Duration.perMilli := Nat.mul_le_mul_right _ hwake
      _ < due + Duration.perMilli := by
        unfold wake Duration.perMilli
        omega
      _ ≤ max due (finish * Duration.perMilli) + Duration.perMilli :=
        Nat.add_le_add_right (Nat.le_max_left _ _) _
  · calc now * Duration.perMilli
      _ ≤ finish * Duration.perMilli := Nat.mul_le_mul_right _ hfinish
      _ ≤ max due (finish * Duration.perMilli) := Nat.le_max_right _ _
      _ < max due (finish * Duration.perMilli) + Duration.perMilli := Nat.lt_add_of_pos_right hmilli

namespace Wait

variable {w : Wait} {deadline : Nat} {s t : WaitState}

/-! ## Spaces between fetches -/

/-- Some fetches, given by their starts, the last first, each ended before the next one started. In
nanoseconds they started a tick apart, less the tolerance at most, and not later than both a tick
and the end of the fetch before by a millisecond. -/
def Spaced (w : Wait) : List Nat → Prop
  | next :: last :: earlier =>
    (∃ d, (w.fetch earlier.length last).delay = some d ∧ last + d ≤ next ∧
      next * Duration.perMilli < max (last * Duration.perMilli + w.interval.nanoseconds)
        ((last + d) * Duration.perMilli) + Duration.perMilli) ∧
    last * Duration.perMilli + w.interval.nanoseconds ≤ next * Duration.perMilli + tolerance ∧
    w.Spaced (last :: earlier)
  | _ => True

theorem Spaced.of_append {after starts : List Nat} (h : w.Spaced (after ++ starts)) :
    w.Spaced starts := by
  induction after with
  | nil => exact h
  | cons a after ih =>
    refine ih ?_
    cases hrest : after ++ starts with
    | nil => trivial
    | cons last earlier =>
      rw [List.cons_append, hrest] at h
      exact h.2.2

theorem Spaced.length_mul_le {last : Nat} {earlier : List Nat} (h : w.Spaced (last :: earlier)) :
    earlier.length * (w.interval.nanoseconds - tolerance) ≤ last * Duration.perMilli := by
  induction earlier generalizing last with
  | nil => simp
  | cons before earlier ih =>
    obtain ⟨⟨d, -, hended, -⟩, hgap, hrest⟩ := h
    have hbefore := ih hrest
    have hle : before * Duration.perMilli ≤ last * Duration.perMilli :=
      Nat.mul_le_mul_right _ (Nat.le_trans (Nat.le_add_right _ _) hended)
    rw [List.length_cons, Nat.succ_mul]
    omega

def TickAfter (w : Wait) (due last : Nat) : Prop :=
  due ≤ last * Duration.perMilli + w.interval.nanoseconds ∧
    last * Duration.perMilli + w.interval.nanoseconds ≤ due + tolerance

theorem tickAfter_nextDue {due now : Nat} (h : due ≤ now * Duration.perMilli) :
    w.TickAfter (nextDue w.interval.nanoseconds due (now * Duration.perMilli)) now :=
  ⟨nextDue_le _ h, le_nextDue_add_tolerance _ _ _⟩

/-- A tick is due at the right time after the last fetch, and time is not ahead of both it and the
end of that fetch. -/
def Rests (w : Wait) (due now : Nat) : List Nat → Prop
  | [] => True
  | last :: earlier => w.TickAfter due last ∧
    ∃ d, (w.fetch earlier.length last).delay = some d ∧ last + d ≤ now ∧
      now ≤ max (wake due) (last + d)

theorem Rests.pass {due now time : Nat} {starts : List Nat} (h : w.Rests due now starts)
    (hle : time ≤ wake due) : w.Rests due (max now time) starts := by
  cases starts with
  | nil => trivial
  | cons last earlier =>
    obtain ⟨hafter, d, hdelay, hended, hnow⟩ := h
    exact ⟨hafter, d, hdelay, by omega, by omega⟩

/-- **A fetch that starts at its tick keeps its distance from the one before.** -/
theorem Rests.spaced_cons {due now : Nat} {starts : List Nat} (h : w.Rests due now starts)
    (hspaced : w.Spaced starts) (hdue : due ≤ now * Duration.perMilli) :
    w.Spaced (now :: starts) := by
  cases starts with
  | nil => trivial
  | cons last earlier =>
    obtain ⟨⟨hlatest, hsoonest⟩, d, hdelay, hended, hnow⟩ := h
    have hmost : max due ((last + d) * Duration.perMilli) ≤
        max (last * Duration.perMilli + w.interval.nanoseconds) ((last + d) * Duration.perMilli) :=
      Nat.max_le.2 ⟨Nat.le_trans hlatest (Nat.le_max_left _ _), Nat.le_max_right _ _⟩
    exact ⟨⟨d, hdelay, hended, Nat.lt_of_lt_of_le (mul_perMilli_lt_of_le_wake hnow)
        (Nat.add_le_add_right hmost _)⟩,
      Nat.le_trans hsoonest (Nat.add_le_add_right hdue _), hspaced⟩

/-! ## The pace of a wait -/

def Paced (w : Wait) (s : WaitState) : Loop → Prop
  | .waiting due => w.Rests due s.now s.starts
  | .fetching next => ∃ last earlier, s.starts = last :: earlier ∧ w.TickAfter next last ∧
    s.fetchEnd = (w.fetch earlier.length last).delay.map (last + ·) ∧ ∀ t ∈ s.fetchEnd, s.now ≤ t
  | .starting => s.starts = []
  | .handed _ | .crashed => True

theorem paced_of_result? {loop : Loop} {r : Except Failure WaitOutcome}
    (h : loop.result? = some r) : w.Paced s loop := by
  cases loop with
  | starting | waiting | fetching => cases h
  | handed | crashed => trivial

theorem paced_fetched {next : Nat} (h : w.Paced s (.fetching next))
    (hcome : hasCome s.fetchEnd s.now = true) :
    w.Paced s ((Loop.fetching next).fetched s.yield) := by
  obtain ⟨last, earlier, hstarts, hafter, hend, htimely⟩ := h
  cases hdecides : s.yield.decides with
  | some r => exact paced_of_result? (result?_fetched hdecides next)
  | none =>
    rw [fetched_of_open hdecides]
    show w.Rests next s.now s.starts
    rw [hstarts]
    cases hdelay : (w.fetch earlier.length last).delay with
    | none =>
      rw [hend, hdelay] at hcome
      cases hcome
    | some d =>
      rw [hdelay] at hend
      rw [hend] at hcome
      exact ⟨hafter, d, hdelay, of_decide_eq_true hcome,
        Nat.le_trans (htimely _ hend) (Nat.le_max_right _ _)⟩

structure Steady (w : Wait) (deadline : Nat) (s : WaitState) : Prop where
  paced : w.Paced s s.loop
  spaced : w.Spaced s.starts
  early : ∀ start ∈ s.starts, start * Duration.perMilli < deadline

theorem steady_start (w : Wait) (deadline : Nat) : w.Steady deadline {} :=
  ⟨rfl, trivial, nofun⟩

theorem Steady.end (h : w.Steady deadline s) (e : Ending) :
    w.Steady deadline { s with ending := some e } := by
  obtain ⟨hpaced, hspaced, hearly⟩ := h
  refine ⟨?_, hspaced, hearly⟩
  show w.Paced { s with ending := some e } s.loop
  cases hloop : s.loop <;> rw [hloop] at hpaced <;> exact hpaced

theorem Steady.loopStep (h : w.Steady deadline s) (hloop : w.loopStep? deadline s = some t) :
    w.Steady deadline t := by
  obtain ⟨hpaced, hspaced, hearly⟩ := h
  cases next_undisturbed hloop with
  | leave hview =>
    rw [callerView_eq_map rfl rfl, result?_of_loopStep? hloop] at hview
    cases hview
  | start hview hstarting =>
    rw [hstarting] at hpaced
    have hnone : s.starts = [] := hpaced
    refine ⟨?_, hspaced, hearly⟩
    show w.Paced _ (if w.interval.isZero then .crashed else .waiting (s.now * Duration.perMilli))
    cases w.interval.isZero with
    | true => exact True.intro
    | false =>
      show w.Rests _ s.now s.starts
      rw [hnone]
      exact True.intro
  | timeOut => exact ⟨trivial, hspaced, hearly⟩
  | @fetch due hview hwaiting hdue hin =>
    rw [hwaiting] at hpaced
    have hrests : w.Rests due s.now s.starts := hpaced
    refine ⟨⟨s.now, s.starts, rfl, tickAfter_nextDue hdue, rfl, fun time htime => ?_⟩,
      hrests.spaced_cons hspaced hdue, List.forall_mem_cons.2 ⟨hin, hearly⟩⟩
    obtain ⟨d, -, rfl⟩ := Option.map_eq_some_iff.1 (Option.mem_def.1 htime)
    exact Nat.le_add_right _ _
  | @fetched next hview hfetching hcome =>
    rw [hfetching] at hpaced
    refine ⟨?_, hspaced, hearly⟩
    show w.Paced _ (s.loop.fetched s.yield)
    rw [hfetching]
    have hkept := paced_fetched hpaced hcome
    cases hafter : (Loop.fetching next).fetched s.yield <;> rw [hafter] at hkept <;> exact hkept
  | pass hquiet =>
    rw [isReady, Bool.or_eq_false_iff] at hquiet
    exact absurd (Option.isSome_iff_exists.2 ⟨_, hloop⟩) (Bool.eq_false_iff.1 hquiet.2)
  | stuck => exact ⟨hpaced, hspaced, hearly⟩

theorem Steady.pass (h : w.Steady deadline s) {time : Nat} (ht : w.nextTime s = some time) :
    w.Steady deadline { s with now := max s.now time } := by
  obtain ⟨hpaced, hspaced, hearly⟩ := h
  obtain ⟨-, hle⟩ := nextTime_eq_some ht
  refine ⟨?_, hspaced, hearly⟩
  show w.Paced { s with now := max s.now time } s.loop
  cases hloop : s.loop with
  | waiting due =>
    rw [hloop] at hpaced
    exact Rests.pass hpaced (hle (wake due) (by rw [loopTime?, hloop]))
  | fetching next =>
    rw [hloop] at hpaced
    obtain ⟨last, earlier, hstarts, hafter, hend, htimely⟩ := hpaced
    refine ⟨last, earlier, hstarts, hafter, hend, fun u hu => Nat.max_le.2 ⟨htimely u hu, ?_⟩⟩
    exact hle u (by rw [loopTime?, hloop]; exact hu)
  | starting =>
    rw [hloop] at hpaced
    exact hpaced
  | handed | crashed => trivial

/-- **Each turn keeps the fetches of a wait apart**, whoever takes it. -/
theorem Steady.happens (h : w.Steady deadline s) (hnext : w.Happens deadline s t) :
    w.Steady deadline t := by
  cases hnext with
  | take | cancel | drop => exact h.end _
  | loop hwaits hloop => exact h.loopStep hloop
  | pass hquiet ht => exact h.pass ht

theorem Reaches.steady (h : w.Reaches deadline {} s) : w.Steady deadline s := by
  induction h with
  | refl => exact steady_start w deadline
  | tail _ _ hnext ih => exact ih.happens hnext

/-- **The ticks of a wait are never batched**, in every order of turns. Of any two fetches in a row
the second starts when the first has ended, at the soonest a tick after it less the tolerance, and
at the latest by a tick after it or by its end, whichever is later, but for what the timer is late.
So there are no more fetches than there is room for before the deadline. -/
theorem fetches_spaced (w : Wait) (h : w.Reaches w.timeout.nanoseconds {} s) :
    (∀ after next last earlier, s.starts = after ++ next :: last :: earlier →
      ∃ d, (w.fetch earlier.length last).delay = some d ∧ last + d ≤ next ∧
        last * Duration.perMilli + w.interval.nanoseconds ≤
          next * Duration.perMilli + tolerance ∧
        next * Duration.perMilli < max (last * Duration.perMilli + w.interval.nanoseconds)
          ((last + d) * Duration.perMilli) + Duration.perMilli) ∧
    (tolerance < w.interval.nanoseconds → s.starts.length ≤
      1 + w.timeout.nanoseconds / (w.interval.nanoseconds - tolerance)) := by
  obtain ⟨-, hspaced, hearly⟩ := h.steady
  constructor
  · intro after next last earlier hstarts
    rw [hstarts] at hspaced
    obtain ⟨⟨d, hdelay, hended, hsoon⟩, hgap, -⟩ := hspaced.of_append
    exact ⟨d, hdelay, hended, hgap, hsoon⟩
  · intro hlong
    cases hstarts : s.starts with
    | nil => exact Nat.zero_le _
    | cons last earlier =>
      rw [hstarts] at hspaced hearly
      have hroom := hspaced.length_mul_le
      have hbefore := hearly last List.mem_cons_self
      have hcount : earlier.length ≤
          w.timeout.nanoseconds / (w.interval.nanoseconds - tolerance) :=
        (Nat.le_div_iff_mul_le (by omega)).2 (by omega)
      rw [List.length_cons]
      omega

def unevenWait : Wait where
  timeout := .ofMillis 80
  interval := .ofMillis 8
  fetch n _ := ⟨some (if n = 1 then 29 else if n = 3 then 12 else 0), .batch (.empty none)⟩

/-- The tick behind a fetch that ends a little late comes after four milliseconds, and one that has
missed three ticks is followed by a whole tick. -/
theorem fetches_spaced_unevenly :
    ∃ s, unevenWait.run? = some s ∧ s.starts = [77, 69, 61, 57, 45, 37, 8, 0] ∧
      57 * Duration.perMilli + unevenWait.interval.nanoseconds ≤
        61 * Duration.perMilli + tolerance ∧
      45 * Duration.perMilli < max (37 * Duration.perMilli + unevenWait.interval.nanoseconds)
        ((37 + 0) * Duration.perMilli) + Duration.perMilli ∧
      s.starts.length ≤ 27 := by
  obtain ⟨s, hrun⟩ := (exists_run?_iff unevenWait).2 (by decide)
  have hreaches : unevenWait.Reaches unevenWait.timeout.nanoseconds {} s := by
    rw [eq_runFor_of_run? hrun]
    exact reaches_runFor _ _ _ _
  have hstarts : unevenWait.run?.map (·.starts) = some [77, 69, 61, 57, 45, 37, 8, 0] := by
    decide +kernel
  rw [hrun, Option.map_some, Option.some.injEq] at hstarts
  obtain ⟨hpairs, hcount⟩ := fetches_spaced unevenWait hreaches
  obtain ⟨-, -, -, hsoonest, -⟩ := hpairs [77, 69] 61 57 [45, 37, 8, 0] hstarts
  obtain ⟨d, hdelay, -, -, hlatest⟩ := hpairs [77, 69, 61, 57] 45 37 [8, 0] hstarts
  obtain rfl : 0 = d := Option.some.inj hdelay
  have hfew := hcount (by decide)
  have hroom : unevenWait.timeout.nanoseconds /
      (unevenWait.interval.nanoseconds - tolerance) = 26 := by decide
  rw [hroom] at hfew
  exact ⟨s, hrun, hstarts, hsoonest, hlatest, hfew⟩

end Wait

end NotificationQueue.LongPoll
