import NotificationQueue.Proofs.LongPoll.Wait
import NotificationQueue.Proofs.Service.Polls
import NotificationQueue.Proofs.Service.Prompt

/-!
The ticks of a long poll. Where the store answers at once no tick comes late, so that the ticks of a
poll stay at its start and whole ticks after it; the timer is behind by less than a millisecond,
which moves nothing. What a poll is told at a tick does not depend on how it got there.
-/
namespace NotificationQueue
set_option autoImplicit false

/-! ## The grid -/

namespace LongPoll

def tickAfter (start interval time : Nat) : Nat :=
  start + ((time - start) / interval + 1) * interval

variable {start interval time due n : Nat}

theorem lt_tickAfter (h : 0 < interval) : time < tickAfter start interval time := by
  have hlt : time - start < ((time - start) / interval + 1) * interval := by
    rw [Nat.mul_comm]
    exact Nat.lt_mul_div_succ _ h
  unfold tickAfter
  omega

theorem tickAfter_le (h : start ≤ time) : tickAfter start interval time ≤ time + interval := by
  have hle : (time - start) / interval * interval ≤ time - start := Nat.div_mul_le_self _ _
  rw [tickAfter, Nat.succ_mul]
  omega

theorem eq_tickAfter (hlt : time < n * interval) (hle : n * interval ≤ time + interval) :
    n * interval = tickAfter 0 interval time := by
  cases n with
  | zero =>
    rw [Nat.zero_mul] at hlt
    exact absurd hlt (Nat.not_lt_zero _)
  | succ k =>
    have hpos : 0 < interval := by
      rcases Nat.eq_zero_or_pos interval with rfl | hpos
      · rw [Nat.mul_zero] at hlt
        exact absurd hlt (Nat.not_lt_zero _)
      · exact hpos
    rw [Nat.succ_mul] at hlt hle
    have hdiv : time / interval = k := by
      refine Nat.div_eq_of_lt_le (by omega) ?_
      rw [Nat.succ_mul]
      exact hlt
    rw [tickAfter, Nat.sub_zero, hdiv, Nat.zero_add]

theorem tickAfter_add (start interval time : Nat) :
    tickAfter start interval (time + start) = tickAfter 0 interval time + start := by
  unfold tickAfter
  rw [Nat.add_sub_cancel, Nat.sub_zero, Nat.zero_add, Nat.add_comm]

theorem wake_lt (due : Nat) : wake due * Duration.perMilli < due + Duration.perMilli := by
  unfold wake Duration.perMilli
  omega

theorem wake_add (due n : Nat) : wake (due + n * Duration.perMilli) = wake due + n := by
  unfold wake Duration.perMilli
  omega

theorem wake_mul_of_dvd (h : Duration.perMilli ∣ due) : wake due * Duration.perMilli = due := by
  obtain ⟨n, rfl⟩ := h
  have hwake := wake_add 0 n
  rw [Nat.zero_add, Nat.mul_comm] at hwake
  rw [hwake, wake, Nat.div_eq_of_lt (by decide), Nat.zero_add, Nat.mul_comm]

theorem nextDue_of_le_wake {now : Nat} (h : now ≤ wake due) (interval : Nat) :
    nextDue interval due (now * Duration.perMilli) = due + interval := by
  have hmul : now * Duration.perMilli ≤ wake due * Duration.perMilli := Nat.mul_le_mul_right _ h
  have hlt := wake_lt due
  unfold nextDue
  rw [if_pos]
  unfold tolerance
  omega

/-! ## Loops on the grid -/

def Settles (late : Prop) : Except Failure WaitOutcome → Prop
  | .ok (.ready b) => b.isEmpty = false
  | .ok .timedOut => late
  | .error _ => False

theorem Settles.imp {late late' : Prop} {r : Except Failure WaitOutcome} (h : Settles late r)
    (himp : late → late') : Settles late' r := by
  cases r with
  | ok outcome =>
    cases outcome with
    | ready b => exact h
    | timedOut => exact himp h
  | error f => exact h

/-- The loop of a poll, some milliseconds after the poll began, has kept to its ticks: the next one
comes within a tick, and has not come unless just now. -/
def OnGrid (settings : QueueSettings) (elapsed : Nat) : Loop → ReadPhase → Prop
  | .starting, _ => elapsed = 0
  | .waiting due, _ =>
    (∃ n, due = n * settings.tickInterval.nanoseconds) ∧
      due ≤ elapsed * Duration.perMilli + settings.tickInterval.nanoseconds ∧ elapsed ≤ wake due
  | .fetching next, read =>
    (∃ n, next = n * settings.tickInterval.nanoseconds) ∧
      next ≤ elapsed * Duration.perMilli + settings.tickInterval.nanoseconds ∧
      elapsed ≤ wake next ∧ read.result? = none
  | .handed r, _ =>
    Settles (settings.longPollTimeout.nanoseconds ≤ elapsed * Duration.perMilli) r
  | .crashed, _ => False

end LongPoll

theorem Query.result?_start (q : Query) : q.start.result? = none := by
  unfold start
  split <;> rfl

theorem ReadPhase.step_cases {a : Answer} {read : ReadPhase} (hread : read.result? = none)
    (ha : a = .waiting ∨ a = .done) (q : Query) (store : Store) (clock : Clock) (wall : Score) :
    (read.step q store clock wall a).result? = none ∨ ∃ least greatest,
      read = .ranging least greatest ∧ a = .done ∧
        read.step q store clock wall a = .finished (.ok (q.ranged store wall least greatest)) := by
  cases read with
  | locating id => rcases ha with rfl | rfl <;> exact .inl rfl
  | bounding least => exact .inl rfl
  | ranging least greatest =>
    rcases ha with rfl | rfl
    · exact .inl rfl
    · exact .inr ⟨least, greatest, rfl, rfl, step_ranging_done q store clock wall least greatest⟩
  | finished r => cases hread

namespace PollState

variable {q : Query} {s : Service} {elapsed : Nat} {read : ReadPhase} {a : Answer}

theorem turn_of_waiting (q : Query) (s : Service) (due : Nat) (read : ReadPhase) (elapsed : Nat)
    (a : Answer) :
    (tickerOf q s (.waiting due) read).turn s elapsed a =
      tickerOf q s ((LongPoll.Loop.waiting due).tick s.settings.tickInterval
        s.settings.longPollTimeout.nanoseconds elapsed) q.start := rfl

theorem turn_of_fetching (hread : read.result? = none) (ha : a = .waiting ∨ a = .done)
    (next elapsed : Nat) :
    ((read.step q s.store s.clock s.wall a).result? = none ∧
      (tickerOf q s (.fetching next) read).turn s elapsed a =
        tickerOf q s (.fetching next) (read.step q s.store s.clock s.wall a)) ∨
    ∃ least greatest, read = .ranging least greatest ∧ a = .done ∧
      ((tickerOf q s (.fetching next) read).turn s elapsed a).loop =
        if (q.ranged s.store s.wall least greatest).isEmpty then .waiting next
        else .handed (.ok (.ready (q.ranged s.store s.wall least greatest))) := by
  rcases ReadPhase.step_cases hread ha q s.store s.clock s.wall with
    hgoes | ⟨least, greatest, rfl, rfl, hends⟩
  · refine .inl ⟨hgoes, ?_⟩
    show (tickerOf q s (.fetching next) read).fetch s a = _
    unfold Ticker.fetch
    simp only [tickerOf]
    split
    · next r hr =>
      rw [hr] at hgoes
      cases hgoes
    · rfl
  · refine .inr ⟨least, greatest, rfl, rfl, ?_⟩
    show ((tickerOf q s (.fetching next) (.ranging least greatest)).fetch s .done).loop = _
    unfold Ticker.fetch
    simp only [tickerOf, hends]
    rfl

/-- **A turn leaves the loop of a poll on its grid.** -/
theorem onGrid_turn {loop : LongPoll.Loop}
    (h : LongPoll.OnGrid s.settings elapsed loop read)
    (hzero : s.settings.tickInterval.isZero = false) (ha : a = .waiting ∨ a = .done) :
    LongPoll.OnGrid s.settings elapsed ((tickerOf q s loop read).turn s elapsed a).loop
      ((tickerOf q s loop read).turn s elapsed a).read := by
  cases loop with
  | starting =>
    obtain rfl : elapsed = 0 := h
    have hloop : ((tickerOf q s .starting read).turn s 0 a).loop = .waiting 0 := by
      show LongPoll.Loop.tick _ s.settings.longPollTimeout.nanoseconds 0 .starting = _
      rw [LongPoll.Loop.tick, hzero, if_neg Bool.false_ne_true, Nat.zero_mul]
    rw [hloop]
    exact ⟨⟨0, (Nat.zero_mul _).symm⟩, Nat.zero_le _, Nat.zero_le _⟩
  | waiting due =>
    obtain ⟨⟨n, hn⟩, hdue, hwake⟩ := h
    rw [turn_of_waiting, LongPoll.Loop.tick_waiting]
    split
    · exact ⟨⟨n, hn⟩, hdue, hwake⟩
    · next hcome =>
      split
      · next hlate => exact hlate
      · rw [LongPoll.nextDue_of_le_wake hwake]
        refine ⟨⟨n + 1, ?_⟩, ?_, ?_, q.result?_start⟩
        · rw [hn, Nat.succ_mul]
        · omega
        · exact Nat.le_trans hwake (LongPoll.wake_mono (Nat.le_add_right _ _))
  | fetching next =>
    obtain ⟨hn, hnext, hwake, hread⟩ := h
    rcases turn_of_fetching hread ha next elapsed with
      ⟨hgoes, hturn⟩ | ⟨least, greatest, -, -, hloop⟩
    · rw [hturn]
      exact ⟨hn, hnext, hwake, hgoes⟩
    · rw [hloop]
      split
      · exact ⟨hn, hnext, hwake⟩
      · next hempty => exact Bool.eq_false_iff.2 hempty
  | handed r => exact h
  | crashed => exact h

/-! ## Callers that wait -/

/-- A poll whose caller waits for a loop of some kind, or has been told a result of some kind. -/
def Waits (P : LongPoll.Loop → ReadPhase → Prop) (R : Except Failure WaitOutcome → Prop) :
    PollState → Prop
  | .long cancelled none (some (loop, read)) => cancelled = false ∧ P loop read
  | .long _ (some r) _ => R r
  | _ => False

variable {P P' : LongPoll.Loop → ReadPhase → Prop} {R R' : Except Failure WaitOutcome → Prop}
  {p : PollState}

theorem Waits.cases (h : p.Waits P R) :
    (∃ loop read, p = .long false none (some (loop, read)) ∧ P loop read) ∨
    ∃ cancelled r loop, p = .long cancelled (some r) loop ∧ R r := by
  match p, h with
  | .long _ none (some (loop, read)), ⟨rfl, h⟩ => exact .inl ⟨loop, read, rfl, h⟩
  | .long cancelled (some r) loop, h => exact .inr ⟨cancelled, r, loop, rfl, h⟩

theorem Waits.imp (h : p.Waits P R) (hP : ∀ loop read, P loop read → P' loop read)
    (hR : ∀ r, R r → R' r) : p.Waits P' R' := by
  rcases h.cases with ⟨loop, read, rfl, hloop⟩ | ⟨cancelled, r, loop, rfl, hr⟩
  · exact ⟨rfl, hP loop read hloop⟩
  · exact hR r hr

theorem Waits.caller (h : p.Waits P R)
    (hresult : ∀ loop read r, P loop read → loop.result? = some r → R r) (a : Answer) :
    (p.next q s elapsed (.caller a)).Waits P R := by
  rcases h.cases with ⟨loop, read, rfl, hloop⟩ | ⟨cancelled, r, loop, rfl, hr⟩
  · cases handed : loop.result? with
    | some r =>
      rw [next, handed]
      exact hresult loop read r hloop handed
    | none =>
      rw [next, handed]
      exact ⟨rfl, hloop⟩
  · cases loop <;> exact hr

theorem Waits.loop (h : p.Waits P R) (hturn : ∀ loop read, P loop read →
    P' ((tickerOf q s loop read).turn s elapsed a).loop
      ((tickerOf q s loop read).turn s elapsed a).read) (hR : ∀ r, R r → R' r) :
    (p.next q s elapsed (.loop a)).Waits P' R' := by
  rcases h.cases with ⟨loop, read, rfl, hloop⟩ | ⟨cancelled, r, loop, rfl, hr⟩
  · exact ⟨rfl, hturn loop read hloop⟩
  · cases loop <;> exact hR r hr

end PollState

def Move.Stays (id : Nat) : Move → Prop
  | .cancel i => i ≠ id
  | .drop i => i ≠ id ∧ i ≠ id + 1
  | _ => True

instance (id : Nat) (m : Move) : Decidable (m.Stays id) :=
  match m with
  | .cancel _ => inferInstanceAs (Decidable (_ ≠ _))
  | .drop _ => inferInstanceAs (Decidable (_ ∧ _))
  | .publish _ | .poll _ _ | .probe | .shutdown | .purgeEvery _ | .advance _ _ | .elapse _
  | .skew _ => .isTrue trivial

namespace Service

variable {s : Service} {id start : Nat} {q : Query} {m : Move}
  {P P' : LongPoll.Loop → ReadPhase → Prop} {R R' : Except Failure WaitOutcome → Prop}

def Polls (s : Service) (id start : Nat) (q : Query) (P : LongPoll.Loop → ReadPhase → Prop)
    (R : Except Failure WaitOutcome → Prop) : Prop :=
  ∃ p : PollState, s.Stands id start true q p ∧ p.Waits P R

theorem Polls.move (h : s.Polls id start q P R) (hp : s.Paired) (hstart : start ≤ s.now)
    (hm : s.IsPrompt m) (hstays : m.Stays id)
    (hresult : ∀ loop read r, P loop read → loop.result? = some r → R r)
    (hturn : ∀ loop read a, a = .waiting ∨ a = .done → P loop read →
      P ((PollState.tickerOf q s loop read).turn s (s.now - start) a).loop
        ((PollState.tickerOf q s loop read).turn s (s.now - start) a).read) :
    (s.move m).Polls id start q P R := by
  obtain ⟨p, hstands, hwaits⟩ := h
  cases hpt : m.pollTurn? id true with
  | none => exact ⟨p, stands_apart hp hstands hpt, hwaits⟩
  | some turn =>
    obtain ⟨rfl, hloops⟩ := Move.of_pollTurn? hpt
    refine ⟨_, stands_turn hp hstart hstands hloops, ?_⟩
    cases turn with
    | caller a => exact hwaits.caller hresult a
    | loop a =>
      exact hwaits.loop (fun loop read hloop => hturn loop read a hm.answer hloop) fun r hr => hr
    | cancel => exact absurd rfl hstays
    | leave => exact absurd rfl hstays.1
    | stop => exact absurd rfl hstays.2

section

variable {loop : LongPoll.Loop} {read : ReadPhase}
  (h : s.Stands id start true q (.long false none (some (loop, read))))

include h

theorem waiting_of_still (hstill : s.IsStill) (hstart : start ≤ s.now)
    (hread : ∀ next, loop = .fetching next → read.result? = none) :
    ∃ due, loop = .waiting due ∧ (s.now - start) * Duration.perMilli < due := by
  obtain ⟨-, hwaiter, hticker⟩ := h
  rw [Option.elim_some] at hticker
  have hcaller := hstill.canGoOn hwaiter
  have hloop := hstill.canGoOn hticker
  simp only [canGoOn, isReady, hwaiter, hticker, Option.bind_some, Task.call?, Ticker.later,
    PollState.tickerOf, LongPoll.Loop.result?_later] at hcaller hloop
  cases loop with
  | starting => simp [LongPoll.Loop.later] at hloop
  | waiting due =>
    refine ⟨due, rfl, ?_⟩
    have hcome : s.time < due + start * Duration.perMilli := by
      simpa [LongPoll.Loop.later] using hloop
    have hsplit : s.time =
        (s.now - start) * Duration.perMilli + start * Duration.perMilli := by
      rw [← Nat.add_mul, Nat.sub_add_cancel hstart, time]
    omega
  | fetching next =>
    have hgoes := hread next rfl
    cases read with
    | finished r => cases hgoes
    | locating | bounding | ranging => simp [LongPoll.Loop.later, ReadPhase.call?] at hloop
  | handed r => simp [LongPoll.Loop.result?] at hcaller
  | crashed => simp [LongPoll.Loop.result?] at hcaller

theorem le_wake_of_stands {millis due : Nat} (hwake : ¬ s.Oversleeps millis)
    (hloop : loop = .waiting due) :
    s.now + millis - start ≤ LongPoll.wake due := by
  subst hloop
  have hle := le_of_not_oversleeps hwake h.2.2 rfl
  rw [LongPoll.wake_add] at hle
  omega

end

theorem Polls.elapse {millis : Nat} (h : s.Polls id start q P R) (hstart : start ≤ s.now)
    (hm : s.IsPrompt (.elapse millis))
    (hread : ∀ next read, P (.fetching next) read → read.result? = none)
    (hpass : ∀ due read, (s.now - start) * Duration.perMilli < due →
      s.now + millis - start ≤ LongPoll.wake due → P (.waiting due) read →
      P' (.waiting due) read)
    (hR : ∀ r, R r → R' r) : (s.move (.elapse millis)).Polls id start q P' R' := by
  obtain ⟨p, hstands, hwaits⟩ := h
  refine ⟨p, hstands, ?_⟩
  rcases hwaits.cases with ⟨loop, read, rfl, hloop⟩ | ⟨cancelled, r, loop, rfl, hr⟩
  · obtain ⟨due, rfl, hcomes⟩ := waiting_of_still hstands hm.1 hstart fun next hnext => by
      subst hnext
      exact hread next read hloop
    exact ⟨rfl, hpass due read hcomes (le_wake_of_stands hstands hm.2 rfl) hloop⟩
  · exact hR r hr

/-! ## Polls on the grid -/

/-- A long poll has kept to its ticks, and is told nothing else than events, or that it is late. -/
def KeepsTicks (s : Service) (id start : Nat) (q : Query) : Prop :=
  s.Polls id start q (LongPoll.OnGrid s.settings (s.now - start))
    (LongPoll.Settles (s.settings.longPollTimeout.nanoseconds ≤
      (s.now - start) * Duration.perMilli))

theorem keepsTicks_poll? {t : Service} {r : PollRequest}
    (h : s.poll? r false = some (t, id)) (hlong : r.longPoll = true) :
    t.KeepsTicks id s.now (r.query s.settings) := by
  have hstands := stands_poll? h
  rw [hlong] at hstands
  refine ⟨_, hstands, rfl, ?_⟩
  show t.now - s.now = 0
  rw [now_poll? h, Nat.sub_self]

theorem KeepsTicks.move (h : s.KeepsTicks id start q) (hp : s.Paired) (hstart : start ≤ s.now)
    (hzero : s.settings.tickInterval.isZero = false) (hm : s.IsPrompt m) (hstays : m.Stays id) :
    (s.move m).KeepsTicks id start q := by
  unfold KeepsTicks
  rw [(s.changed_move m).settings]
  rcases s.now_move m with ⟨millis, rfl⟩ | hnow
  · have hlater : (s.now - start) * Duration.perMilli ≤
        (s.now + millis - start) * Duration.perMilli := Nat.mul_le_mul_right _ (by omega)
    refine Polls.elapse h hstart hm (fun next read hread => hread.2.2.2) ?_ ?_
    · rintro due read - hwake ⟨hn, hdue, -⟩
      exact ⟨hn, Nat.le_trans hdue (Nat.add_le_add_right hlater _), hwake⟩
    · exact fun r hr => hr.imp fun hlate => Nat.le_trans hlate hlater
  · rw [hnow]
    refine Polls.move h hp hstart hm hstays ?_ fun loop read a ha hloop =>
      PollState.onGrid_turn hloop hzero ha
    intro loop read r hloop hr
    cases loop with
    | handed r' =>
      cases hr
      exact hloop
    | crashed => exact hloop.elim
    | starting | waiting | fetching => cases hr

/-- **As long as the store answers at once, a long poll keeps to its ticks.** -/
theorem KeepsTicks.run (h : s.KeepsTicks id start q) (hs : s.Reachable) (hstart : start ≤ s.now)
    (hzero : s.settings.tickInterval.isZero = false) {ms : List Move} (hms : s.Prompt ms)
    (hstays : ∀ m ∈ ms, m.Stays id) : (s.run ms).KeepsTicks id start q := by
  induction ms generalizing s with
  | nil => exact h
  | cons m ms ih =>
    refine ih ?_ (hs.run [m]) (Nat.le_trans hstart (now_le_move s m)) ?_ hms.2
      fun m' hm' => hstays m' (List.mem_cons_of_mem m hm')
    · exact h.move hs.paired hstart hzero hms.1 (hstays m List.mem_cons_self)
    · rw [(s.changed_move m).settings]
      exact hzero

end Service

end NotificationQueue
