import NotificationQueue.Proofs.Delivery.Approach
import NotificationQueue.Proofs.LongPoll.Outcome
import NotificationQueue.Proofs.Service.Isolation

/-!
Long polls next to plain ones. The first fetch of a long poll is a plain poll in its place: what a
plain poll would find, or fail with, decides the long one. An empty page is the same from both,
apart from the interval.
-/
namespace NotificationQueue
set_option autoImplicit false

/-! ## Pages -/

/-- The page that moves nobody on. -/
def PollResponse.idle (lastEventId : Option String) (interval : Duration) : PollResponse where
  events := []
  lastEventId := lastEventId.getD ""
  pollInterval := interval.millis % (Text.maxWord64 + 1)
  hasMore := false

def PollResponse.withInterval (interval : Duration) (r : PollResponse) : PollResponse :=
  { r with pollInterval := interval.millis % (Text.maxWord64 + 1) }

theorem getD_cursorOf (text : Option String) : (cursorOf text).getD "" = text.getD "" := by
  cases text with
  | none => rfl
  | some id =>
    rw [cursorOf, Option.filter_some]
    split
    · rfl
    · next hid =>
      rw [Option.getD_none, Option.getD_some]
      exact (show id = "" by simpa using hid).symm

theorem PollResponse.idle_cursorOf (text : Option String) (interval : Duration) :
    idle (cursorOf text) interval = idle text interval := by
  simp only [idle, getD_cursorOf]

theorem PollResponse.ofBatch_of_isEmpty {q : Query} {events : List Event}
    (h : (q.batch events).isEmpty = true) (settings : QueueSettings) :
    ofBatch settings (q.batch events) false = idle q.cursor settings.shortPollInterval := by
  have hnone : q.select events = [] := List.isEmpty_iff.1 h
  have hmore : (decide (0 < q.limit) && decide (0 = q.limit)) = false := by
    rw [Bool.and_eq_false_iff, decide_eq_false_iff_not, decide_eq_false_iff_not]
    omega
  rw [← idle_cursorOf]
  simp only [ofBatch, idle, Query.batch, Batch.ofEvents, hnone, List.getLast?_nil, Option.map_none,
    Option.none_or, List.length_nil, hmore, Bool.false_eq_true, if_false]

/-! ## Reads in the place of others -/

namespace PollTurn

def givesUp : PollTurn → Bool
  | .cancel | .leave | .stop => true
  | _ => false

def toCaller? : PollTurn × Service → Option (Answer × Service)
  | (.caller a, s) => some (a, s)
  | _ => none

def toLoop? : PollTurn × Service → Option (Answer × Service)
  | (.loop a, s) => some (a, s)
  | _ => none

end PollTurn

def Query.readOn (q : Query) (phase : ReadPhase) (answers : List (Answer × Service)) : ReadPhase :=
  answers.foldl (fun phase x => phase.step q x.2.store x.2.clock x.2.wall x.1) phase

theorem exists_batch_of_step {q : Query} {s : Service} {phase : ReadPhase} {a : Answer} {b : Batch}
    (h : phase.step q s.store s.clock s.wall a = .finished (.ok b)) :
    phase = .finished (.ok b) ∨ ∃ events, b = q.batch events := by
  cases phase with
  | locating id => cases a <;> cases h
  | bounding least => cases h
  | ranging least greatest =>
    cases a with
    | waiting => cases h
    | failed f => cases h
    | done =>
      cases h
      exact .inr ⟨_, rfl⟩
  | finished r => exact .inl h

theorem exists_batch_of_readOn {q : Query} {phase : ReadPhase} {answers : List (Answer × Service)}
    {b : Batch} (h : q.readOn phase answers = .finished (.ok b)) :
    phase = .finished (.ok b) ∨ ∃ events, b = q.batch events := by
  induction answers generalizing phase with
  | nil => exact .inl h
  | cons x answers ih =>
    rcases ih h with hstep | hbatch
    · exact exists_batch_of_step hstep
    · exact .inr hbatch

namespace PollState

variable {q : Query} {s t : Service} {phase : ReadPhase} {p : PollState}

theorem after_plain (start : Nat) (xs : List (PollTurn × Service)) :
    (plain phase).after q start xs = .plain (q.readOn phase (xs.filterMap PollTurn.toCaller?)) ∨
      (plain phase).after q start xs = .left := by
  have hleft : ∀ xs : List (PollTurn × Service), left.after q start xs = .left := by
    intro xs
    induction xs with
    | nil => rfl
    | cons x xs ih =>
      obtain ⟨turn, s⟩ := x
      cases turn <;> exact ih
  induction xs generalizing phase with
  | nil => exact .inl rfl
  | cons x xs ih =>
    obtain ⟨turn, s⟩ := x
    cases turn with
    | caller a => exact ih
    | loop | cancel | stop => exact ih
    | leave => exact .inr (hleft xs)

/-- A long poll has come as far as a read: it fetches, and has got as far with it, or it holds what
the read has found. A read that finds nothing is no matter here. -/
inductive Follows (phase : ReadPhase) : PollState → Prop
  | fetching {next : Nat} (h : phase.result? = none) :
    Follows phase (.long false none (some (.fetching next, phase)))
  | handed {x : Except Failure Batch} {r : Except Failure WaitOutcome} {loop : LongPoll.Loop}
    {read : ReadPhase} (h : phase = .finished x) (hr : (Service.yieldOf x).decides = some r)
    (hloop : loop.result? = some r) : Follows phase (.long false none (some (loop, read)))
  | taken {x : Except Failure Batch} {r : Except Failure WaitOutcome} (h : phase = .finished x)
    (hr : (Service.yieldOf x).decides = some r) : Follows phase (.long false (some r) none)
  | vain {x : Except Failure Batch} {p : PollState} (h : phase = .finished x)
    (hr : (Service.yieldOf x).decides = none) : Follows phase p

theorem Follows.look (h : Follows phase p) (elapsed : Nat) (a : Answer) :
    Follows phase (p.next q s elapsed (.caller a)) := by
  cases h with
  | fetching h => exact .fetching h
  | handed h hr hloop =>
    simp only [PollState.next, hloop]
    exact .taken h hr
  | taken h hr => exact .taken h hr
  | vain h hr => exact .vain h hr

theorem Follows.step (h : Follows phase p) (halike : s.LooksAlike t q.subject.key) (elapsed : Nat)
    (a : Answer) : Follows (phase.step q s.store s.clock s.wall a)
      (p.next q t elapsed (.loop a)) := by
  cases h with
  | @fetching next h =>
    rw [halike.step_eq]
    simp only [PollState.next, Ticker.turn, tickerOf, Ticker.fetch]
    cases hread : phase.step q t.store t.clock t.wall a with
    | finished x =>
      cases hdecides : (Service.yieldOf x).decides with
      | none => exact .vain rfl hdecides
      | some r => exact .handed rfl hdecides (LongPoll.result?_fetched hdecides next)
    | locating | bounding | ranging => exact .fetching rfl
  | @handed x r loop read h hr hloop =>
    subst h
    refine .handed rfl hr ?_
    cases loop with
    | handed | crashed => exact hloop
    | starting | waiting | fetching => cases hloop
  | @taken x r h hr =>
    subst h
    exact .taken rfl hr
  | @vain x _ h hr =>
    subst h
    exact .vain rfl hr

theorem Follows.after (h : Follows phase p) {xs : List (Answer × Service)}
    {ys : List (PollTurn × Service)} (hys : ∀ y ∈ ys, y.1.givesUp = false)
    (halike : List.Forall₂ (fun x y => x.1 = y.1 ∧ x.2.LooksAlike y.2 q.subject.key) xs
      (ys.filterMap PollTurn.toLoop?)) (start : Nat) :
    Follows (q.readOn phase xs) (p.after q start ys) := by
  induction ys generalizing xs phase p with
  | nil =>
    cases halike
    exact h
  | cons y ys ih =>
    obtain ⟨turn, t⟩ := y
    have hrest := fun y hy => hys y (List.mem_cons_of_mem _ hy)
    have hstays := hys _ List.mem_cons_self
    cases turn with
    | caller a => exact ih (h.look _ a) hrest halike
    | loop a =>
      rw [List.filterMap_cons_some (by rfl)] at halike
      cases halike with
      | @cons x _ xs _ hx halike =>
        obtain ⟨b, s⟩ := x
        obtain ⟨rfl, hlooks⟩ := hx
        exact ih (h.step hlooks _ _) hrest halike
    | cancel | leave | stop => cases hstays

theorem after_looks {loop : LongPoll.Loop} (hloop : loop.result? = none) {read : ReadPhase}
    {ys : List (PollTurn × Service)} (hys : ∀ y ∈ ys, y.1.givesUp = false)
    (hnone : ∀ y ∈ ys, PollTurn.toLoop? y = none) (start : Nat) :
    (long false none (some (loop, read))).after q start ys =
      .long false none (some (loop, read)) := by
  induction ys with
  | nil => rfl
  | cons y ys ih =>
    obtain ⟨turn, t⟩ := y
    have hstays := hys _ List.mem_cons_self
    have hidle := hnone _ List.mem_cons_self
    cases turn with
    | caller a =>
      have hlook : PollState.next q t (t.now - start) (.caller a)
          (.long false none (some (loop, read))) = .long false none (some (loop, read)) := by
        simp only [PollState.next, hloop, Bool.false_eq_true, if_false]
      have hrest := ih (fun y hy => hys y (List.mem_cons_of_mem _ hy))
        fun y hy => hnone y (List.mem_cons_of_mem _ hy)
      unfold PollState.after at hrest ⊢
      rw [List.foldl_cons, hlook, hrest]
    | loop a => cases hidle
    | cancel | leave | stop => cases hstays

end PollState

/-- Two polls of a queue begin at the same reading of the timer, a plain and a long one, and the
first fetch of the long one sees what the plain one sees: the loop takes two turns to get to it, the
second one before the deadline, and then has the same answers as the plain poll's caller, at
services that look alike. -/
def FetchesAlike (key : String) (timeout : Duration) (start : Nat)
    (xs ys : List (PollTurn × Service)) : Prop :=
  ∃ first second fetch, ys.filterMap PollTurn.toLoop? = first :: second :: fetch ∧
    (second.2.now - start) * Duration.perMilli < timeout.nanoseconds ∧
    List.Forall₂ (fun x y => x.1 = y.1 ∧ x.2.LooksAlike y.2 key)
      (xs.filterMap PollTurn.toCaller?) fetch

theorem PollTurn.exists_split {ys : List (PollTurn × Service)} {x : Answer × Service}
    {rest : List (Answer × Service)} (h : ys.filterMap toLoop? = x :: rest) :
    ∃ before behind, ys = before ++ (.loop x.1, x.2) :: behind ∧
      (∀ y ∈ before, toLoop? y = none) ∧ behind.filterMap toLoop? = rest := by
  obtain ⟨before, ⟨turn, s⟩, behind, hys, hbefore, hturn, hrest⟩ := List.filterMap_eq_cons_iff.1 h
  cases turn with
  | loop a =>
    cases hturn
    exact ⟨before, behind, hys, hbefore, hrest⟩
  | caller | cancel | leave | stop => cases hturn

namespace PollState

variable {q : Query} {s : Service} {start : Nat}

theorem next_starting (htick : s.settings.tickInterval.isZero = false) (elapsed : Nat) (a : Answer)
    (read : ReadPhase) :
    PollState.next q s elapsed (.loop a) (.long false none (some (.starting, read))) =
      .long false none (some (.waiting (elapsed * Duration.perMilli), q.start)) := by
  simp only [PollState.next, Ticker.turn, tickerOf, LongPoll.Loop.tick, htick, Bool.false_eq_true,
    if_false]

theorem next_waiting {due elapsed : Nat} (hdue : due ≤ elapsed * Duration.perMilli)
    (hearly : elapsed * Duration.perMilli < s.settings.longPollTimeout.nanoseconds) (a : Answer)
    (read : ReadPhase) :
    ∃ next, PollState.next q s elapsed (.loop a) (.long false none (some (.waiting due, read))) =
      .long false none (some (.fetching next, q.start)) := by
  simp only [PollState.next, Ticker.turn, tickerOf, LongPoll.Loop.tick_waiting,
    if_neg (Nat.not_lt.2 hdue), if_neg (Nat.not_le.2 hearly)]
  exact ⟨_, rfl⟩

theorem after_loop {loop : LongPoll.Loop} (hloop : loop.result? = none) {read : ReadPhase}
    {before behind : List (PollTurn × Service)} {x : Answer × Service}
    (hstay : ∀ y ∈ before, y.1.givesUp = false) (hnone : ∀ y ∈ before, PollTurn.toLoop? y = none) :
    (long false none (some (loop, read))).after q start (before ++ (.loop x.1, x.2) :: behind) =
      (PollState.next q x.2 (x.2.now - start) (.loop x.1)
        (.long false none (some (loop, read)))).after q start behind := by
  have hlooks : (long false none (some (loop, read))).after q start before =
      .long false none (some (loop, read)) := after_looks hloop hstay hnone start
  unfold PollState.after at hlooks ⊢
  rw [List.foldl_append, hlooks, List.foldl_cons]

/-- **The first fetch of a long poll is a plain poll in its place.** -/
theorem follows_first_fetch {settings : QueueSettings} {xs ys : List (PollTurn × Service)}
    (htick : settings.tickInterval.isZero = false) (hys : ∀ y ∈ ys, y.1.givesUp = false)
    (hsettings : ∀ y ∈ ys, y.2.settings = settings)
    (hordered : ys.Pairwise fun x y => x.2.now ≤ y.2.now)
    (h : FetchesAlike q.subject.key settings.longPollTimeout start xs ys) :
    Follows (q.readOn q.start (xs.filterMap PollTurn.toCaller?))
      ((begin q true false).after q start ys) := by
  obtain ⟨first, second, fetch, hturns, hearly, halike⟩ := h
  obtain ⟨before, ys', rfl, hbefore, hturns'⟩ := PollTurn.exists_split hturns
  obtain ⟨between, behind, rfl, hbetween, hfetch⟩ := PollTurn.exists_split hturns'
  rw [List.forall_mem_append, List.forall_mem_cons, List.forall_mem_append,
    List.forall_mem_cons] at hys hsettings
  obtain ⟨hstay, -, hstay', -, hbehind⟩ := hys
  obtain ⟨-, hset, -, hset', -⟩ := hsettings
  have hlater : first.2.now ≤ second.2.now := by
    have hpair := (List.pairwise_append.1 hordered).2.1
    exact (List.pairwise_cons.1 hpair).1 _ (List.mem_append_right _ List.mem_cons_self)
  have hdue : (first.2.now - start) * Duration.perMilli ≤
      (second.2.now - start) * Duration.perMilli :=
    Nat.mul_le_mul_right _ (Nat.sub_le_sub_right hlater _)
  -- At its first turn the loop starts its ticker, and at its second its first tick has come.
  obtain ⟨next, hnext⟩ := next_waiting (q := q) hdue (by rw [hset']; exact hearly) second.1 q.start
  have hbegin : begin q true false = .long false none (some (.starting, q.start)) := rfl
  have hstart : q.start.result? = none := by
    unfold Query.start
    split <;> rfl
  rw [hbegin, after_loop rfl hstay hbefore, next_starting (by rw [hset]; exact htick),
    after_loop rfl hstay' hbetween, hnext]
  exact Follows.after (.fetching hstart) hbehind (hfetch ▸ halike) start

theorem Follows.result?_look {settings : QueueSettings} {phase : ReadPhase} {p : PollState}
    {result : Except Failure PollResponse} (h : Follows phase p)
    (hplain : (plain phase).result? settings q = some result)
    (hdecisive : ∀ page, result = .ok page → page.events ≠ []) (elapsed : Nat) (a : Answer) :
    (p.next q s elapsed (.caller a)).result? settings q =
      some (result.map (·.withInterval settings.longPollInterval)) := by
  obtain ⟨x, hphase, rfl⟩ := Option.map_eq_some_iff.1 hplain
  have hfound : ∃ r, (Service.yieldOf x).decides = some r ∧
      (long false (some r) none).result? settings q = some ((x.map
        (PollResponse.ofBatch settings · false)).map
          (·.withInterval settings.longPollInterval)) := by
    cases x with
    | error f => exact ⟨_, rfl, rfl⟩
    | ok b =>
      have hfull : b.isEmpty = false := List.isEmpty_eq_false_iff.2 (hdecisive _ rfl)
      exact ⟨.ok (.ready b), by simp [Service.yieldOf, LongPoll.Yield.decides, hfull], rfl⟩
  obtain ⟨r, hr, hlong⟩ := hfound
  rw [← hlong]
  have hsame : ∀ {x' r'}, phase = .finished x' → (Service.yieldOf x').decides = r' →
      r' = some r := by
    intro x' r' hx' hr'
    rw [ReadPhase.of_result?_eq_some hphase] at hx'
    cases hx'
    rw [← hr', hr]
  cases h with
  | fetching h =>
    rw [h] at hphase
    cases hphase
  | handed hx hr' hloop =>
    cases hsame hx hr'
    simp only [PollState.next, hloop]
  | taken hx hr' =>
    cases hsame hx hr'
    rfl
  | vain hx hr' => cases hsame hx hr'

end PollState

/-! ## Polls of a service -/

@[simp] theorem Move.pollTurn?_caller (id : Nat) (long : Bool) (a : Answer) :
    (Move.advance id a).pollTurn? id long = some (.caller a) :=
  if_pos rfl

@[simp] theorem Move.pollTurn?_loop (id : Nat) (a : Answer) :
    (Move.advance (id + 1) a).pollTurn? id true = some (.loop a) := by
  simp [pollTurn?]

namespace Service

variable {s t u : Service} {r : PollRequest} {cancelled long : Bool} {id i : Nat}

theorem seen_append (s : Service) (id : Nat) (long : Bool) (ms ns : List Move) :
    s.seen id long (ms ++ ns) = s.seen id long ms ++ (s.run ms).seen id long ns := by
  induction ms generalizing s with
  | nil => rfl
  | cons m ms ih => rw [List.cons_append, seen, seen, ih, List.append_assoc, run_cons]

theorem seen_ordered (s : Service) (id : Nat) (long : Bool) (ms : List Move) :
    (s.seen id long ms).Pairwise fun x y => x.2.now ≤ y.2.now := by
  induction ms generalizing s with
  | nil => exact .nil
  | cons m ms ih =>
    rw [seen, List.pairwise_append]
    refine ⟨?_, ih (s.move m), fun x hx y hy => ?_⟩
    · cases m.pollTurn? id long with
      | none => exact .nil
      | some turn => exact List.pairwise_singleton _ _
    · obtain ⟨turn, -, rfl⟩ := Option.map_eq_some_iff.1 (Option.mem_toList.1 hx)
      obtain ⟨before, -, hy⟩ := exists_of_mem_seen hy
      rw [hy]
      exact (now_le_move s m).trans (now_le_run _ before)

theorem turn_of_mem_seen {ms : List Move} {x : PollTurn × Service} (h : x ∈ s.seen id long ms) :
    ∃ m ∈ ms, m.pollTurn? id long = some x.1 := by
  induction ms generalizing s with
  | nil => cases h
  | cons m ms ih =>
    rcases List.mem_append.1 h with hhere | hlater
    · obtain ⟨turn, hturn, rfl⟩ := Option.map_eq_some_iff.1 (Option.mem_toList.1 hhere)
      exact ⟨m, List.mem_cons_self, hturn⟩
    · obtain ⟨m', hm', hturn⟩ := ih hlater
      exact ⟨m', List.mem_cons_of_mem m hm', hturn⟩

theorem settings_of_mem_seen {ms : List Move} {x : PollTurn × Service}
    (h : x ∈ s.seen id long ms) : x.2.settings = s.settings := by
  obtain ⟨before, -, hx⟩ := exists_of_mem_seen h
  rw [hx, settings_run]

theorem settings_poll? (h : s.poll? r cancelled = some (t, id)) : t.settings = s.settings :=
  congrArg Core.settings (core_poll? h)

theorem eq_idle_of_plain (hp : s.Paired) (hplain : r.longPoll = false)
    (h : s.poll? r cancelled = some (t, id)) {ms : List Move} {page : PollResponse}
    (hpage : (t.run ms).pollResult? id = some (.ok page)) (hempty : page.events = []) :
    page = .idle r.lastEventId s.settings.shortPollInterval := by
  rw [pollResult?_run hp h, hplain] at hpage
  have hbegin : PollState.begin (r.query s.settings) false cancelled =
    .plain (r.query s.settings).start := rfl
  rw [hbegin] at hpage
  rcases PollState.after_plain (q := r.query s.settings) s.now (t.seen id false ms) with
    hreads | hleft
  · rw [hreads] at hpage
    obtain ⟨x, hphase, hx⟩ := Option.map_eq_some_iff.1 hpage
    cases x with
    | error f => cases hx
    | ok b =>
      cases hx
      have hread := ReadPhase.of_result?_eq_some hphase
      rcases exists_batch_of_readOn hread with hstart | ⟨events, rfl⟩
      · unfold Query.start at hstart
        split at hstart <;> cases hstart
      · exact (PollResponse.ofBatch_of_isEmpty (List.isEmpty_iff.2 hempty) _).trans
          (PollResponse.idle_cursorOf _ _)
  · rw [hleft] at hpage
    cases hpage

theorem Stands.query_eq {start : Nat} {q : Query} {p : PollState} {w : Waiter}
    (h : s.Stands id start long q p) (hw : s.tasks[id]? = some (.waiter w)) : w.query = q := by
  cases p with
  | plain phase =>
    rw [h.2] at hw
    cases hw
  | long cancelled result loop =>
    rw [h.2.1] at hw
    cases hw
    rfl
  | left =>
    rw [h.1] at hw
    cases hw

theorem eq_idle_of_timedOut (hp : s.Paired) (h : s.poll? r cancelled = some (t, id))
    {ms : List Move} {w : Waiter} (hw : (t.run ms).tasks[id]? = some (.waiter w))
    (hout : w.result = some (.ok .timedOut)) :
    (t.run ms).pollResult? id = some (.ok (.idle r.lastEventId s.settings.longPollInterval)) := by
  have hstands := stands_run (hp.poll? h) (Nat.le_of_eq (now_poll? h).symm) (stands_poll? h) ms
  have hquery : w.query = r.query s.settings := hstands.query_eq hw
  unfold pollResult?
  rw [hw]
  simp only [hout, hquery, settings_run, settings_poll? h]
  exact congrArg (fun page => some (Except.ok page)) (PollResponse.idle_cursorOf _ _)

theorem long_eq_plain (hp : s.Paired) (hvalid : s.settings.validate = .ok ())
    (hplain : r.longPoll = false) (h : s.poll? r cancelled = some (t, id))
    (h' : s.poll? { r with longPoll := true } false = some (u, i)) {ms ns : List Move}
    (hstays : ∀ y ∈ u.seen i true ns, y.1.givesUp = false)
    (halike : FetchesAlike r.subject.key s.settings.longPollTimeout s.now (t.seen id false ms)
      (u.seen i true ns)) {result : Except Failure PollResponse}
    (hresult : (t.run ms).pollResult? id = some result)
    (hdecisive : ∀ page, result = .ok page → page.events ≠ []) (a : Answer) :
    (u.run (ns ++ [.advance i a])).pollResult? i =
      some (result.map (·.withInterval s.settings.longPollInterval)) := by
  have hlook : (u.run ns).seen i true [.advance i a] = [(.caller a, u.run ns)] := by
    simp [seen]
  have hfollows := PollState.follows_first_fetch (q := r.query s.settings)
    (QueueSettings.isZero_tickInterval hvalid) hstays
    (fun y hy => (settings_of_mem_seen hy).trans (settings_poll? h')) (seen_ordered u i true ns)
    halike
  rw [pollResult?_run hp h, hplain] at hresult
  have hreads : ((PollState.plain (r.query s.settings).start).after (r.query s.settings) s.now
      (t.seen id false ms)).result? s.settings (r.query s.settings) = some result := hresult
  rcases PollState.after_plain (q := r.query s.settings) s.now (t.seen id false ms) with
    hread | hleft
  · rw [hread] at hreads
    have hanswer := hfollows.result?_look (s := u.run ns) hreads hdecisive
      ((u.run ns).now - s.now) a
    rw [pollResult?_run hp h', seen_append, hlook, PollState.after, List.foldl_append]
    exact hanswer
  · rw [hleft] at hreads
    cases hreads

theorem core_run_of_turns {start : Nat} {q : Query} {p : PollState} (hp : s.Paired)
    (hstart : start ≤ s.now) (h : s.Stands id start long q p) {ms : List Move}
    (hms : ∀ m ∈ ms, (m.pollTurn? id long).isSome = true) : (s.run ms).core = s.core := by
  induction ms generalizing s p with
  | nil => rfl
  | cons m ms ih =>
    obtain ⟨turn, hm⟩ := Option.isSome_iff_exists.1 (hms m List.mem_cons_self)
    obtain ⟨rfl, hturn⟩ := Move.of_pollTurn? hm
    have hrest := ih (hp.move _) (hstart.trans (now_le_move s _)) (stands_turn hp hstart h hturn)
      fun m hmem => hms m (List.mem_cons_of_mem _ hmem)
    rw [run_cons, hrest, (core_turn hp.linked h hturn).1]

theorem core_poll?_run (hp : s.Paired) (h : s.poll? r cancelled = some (t, id)) {ms : List Move}
    (hms : ∀ m ∈ ms, (m.pollTurn? id r.longPoll).isSome = true) : (t.run ms).core = s.core :=
  (core_run_of_turns (hp.poll? h) (Nat.le_of_eq (now_poll? h).symm) (stands_poll? h) hms).trans
    (core_poll? h)

theorem looksAlike_of_core (hs : t.core = s.core) (ht : u.core = s.core) (key : String) :
    t.LooksAlike u key :=
  (Agrees.of_core (s := s) (t := s) ⟨rfl, rfl, rfl, rfl⟩ hs ht).looksAlike

theorem forall₂_of_core {c : Core}
    (ht : ∀ as : List Answer, (t.run (as.map (.advance id))).core = c)
    (hu : ∀ as : List Answer, (u.run (as.map (.advance (i + 1)))).core = c) (key : String)
    (as : List Answer) :
    List.Forall₂ (fun x y => x.1 = y.1 ∧ x.2.LooksAlike y.2 key)
      ((t.seen id false (as.map (.advance id))).filterMap PollTurn.toCaller?)
      ((u.seen i true (as.map (.advance (i + 1)))).filterMap PollTurn.toLoop?) := by
  induction as generalizing t u with
  | nil => exact .nil
  | cons a as ih =>
    have hlooks : t.LooksAlike u key := looksAlike_of_core rfl ((hu []).trans (ht []).symm) key
    have hrest := ih (t := t.move (.advance id a)) (u := u.move (.advance (i + 1) a))
      (fun as => ht (a :: as)) fun as => hu (a :: as)
    rw [List.map_cons, List.map_cons, seen, seen, Move.pollTurn?_caller, Move.pollTurn?_loop]
    exact .cons ⟨rfl, hlooks⟩ hrest

def fetchTurns (i : Nat) (as : List Answer) : List Move :=
  (.waiting :: .waiting :: as).map (.advance (i + 1))

theorem pollTurn?_fetchTurns {as : List Answer} {m : Move} (hm : m ∈ fetchTurns i as) :
    ∃ a, m.pollTurn? i true = some (.loop a) := by
  obtain ⟨a, -, rfl⟩ := List.mem_map.1 hm
  exact ⟨a, Move.pollTurn?_loop i a⟩

theorem givesUp_fetchTurns {as : List Answer} {y : PollTurn × Service}
    (hy : y ∈ s.seen i true (fetchTurns i as)) : y.1.givesUp = false := by
  obtain ⟨m, hm, hturn⟩ := turn_of_mem_seen hy
  obtain ⟨a, ha⟩ := pollTurn?_fetchTurns hm
  rw [← Option.some.inj (ha.symm.trans hturn)]
  rfl

theorem fetchesAlike_alone (hp : s.Paired)
    (h : s.poll? r cancelled = some (t, id))
    (h' : s.poll? { r with longPoll := true } false = some (u, i))
    (htimeout : 0 < s.settings.longPollTimeout.nanoseconds) (as : List Answer) :
    FetchesAlike r.subject.key s.settings.longPollTimeout s.now
      (t.seen id false (as.map (.advance id))) (u.seen i true (fetchTurns i as)) := by
  have ht : ∀ as : List Answer, (t.run (as.map (.advance id))).core = s.core := fun as =>
    core_poll?_run hp h fun m hm => by
      obtain ⟨a, -, rfl⟩ := List.mem_map.1 hm
      simp
  have hu : ∀ as : List Answer, (u.run (as.map (.advance (i + 1)))).core = s.core := fun as =>
    core_poll?_run hp h' fun m hm => by
      obtain ⟨a, -, rfl⟩ := List.mem_map.1 hm
      simp
  have hnow : (u.move (.advance (i + 1) .waiting)).now = s.now :=
    (now_advance u (i + 1) .waiting).trans (now_poll? h')
  refine ⟨(.waiting, u), (.waiting, u.move (.advance (i + 1) .waiting)), _, ?_, ?_,
    forall₂_of_core ht (fun as => hu (.waiting :: .waiting :: as)) r.subject.key as⟩
  · rw [fetchTurns, List.map_cons, List.map_cons, seen, seen, Move.pollTurn?_loop]
    rfl
  · rw [hnow, Nat.sub_self, Nat.zero_mul]
    exact htimeout

theorem exists_long_poll_iff (s : Service) (r : PollRequest) (cancelled : Bool) :
    (∃ t id, s.poll? { r with longPoll := true } cancelled = some (t, id)) ↔
      s.settings.longPollTimeout.seconds ≤ LongPoll.maxTimeout := by
  unfold poll? LongPoll.deadline?
  rw [if_pos rfl]
  split
  · next hle => simpa using hle
  · next hgt => simpa using hgt

/-- **A long poll agrees with a plain one**, just if the timer can tell its deadline. A page that
holds events, or a failure, of a plain poll is what the same request gets as a long poll, once its
first fetch has seen the same and its caller looks, if nobody gives it up; and a long poll that
times out gets what a plain one does that finds nothing: the cursor of the request. Only the
intervals differ. -/
theorem long_poll_agrees_iff (hs : s.Reachable) (hvalid : s.settings.validate = .ok ())
    (hplain : r.longPoll = false) (h : s.poll? r cancelled = some (t, id)) :
    (∃ u i, s.poll? { r with longPoll := true } false = some (u, i) ∧
      (∀ ms ns, (∀ y ∈ u.seen i true ns, y.1.givesUp = false) →
        FetchesAlike r.subject.key s.settings.longPollTimeout s.now (t.seen id false ms)
          (u.seen i true ns) →
        ∀ result, (t.run ms).pollResult? id = some result →
          (∀ page, result = .ok page → page.events ≠ []) →
          ∀ a, (u.run (ns ++ [.advance i a])).pollResult? i =
            some (result.map (·.withInterval s.settings.longPollInterval))) ∧
      (∀ ns w, (u.run ns).tasks[i]? = some (.waiter w) → w.result = some (.ok .timedOut) →
        (u.run ns).pollResult? i =
          some (.ok (.idle r.lastEventId s.settings.longPollInterval))) ∧
      ∀ ms page, (t.run ms).pollResult? id = some (.ok page) → page.events = [] →
        page = .idle r.lastEventId s.settings.shortPollInterval) ↔
    s.settings.longPollTimeout.seconds ≤ LongPoll.maxTimeout := by
  have hp := hs.paired
  constructor
  · rintro ⟨u, i, h', -⟩
    exact (exists_long_poll_iff s r false).1 ⟨u, i, h'⟩
  · intro hshort
    obtain ⟨u, i, h'⟩ := (exists_long_poll_iff s r false).2 hshort
    refine ⟨u, i, h', fun ms ns hstays halike result hresult hdecisive a => ?_,
      fun ns w hw hout => eq_idle_of_timedOut hp h' hw hout,
      fun ms page hpage hempty => eq_idle_of_plain hp hplain h hpage hempty⟩
    exact long_eq_plain hp hvalid hplain h h' hstays halike hresult hdecisive a

/-- An order has been written: what a plain poll finds, a long poll finds at its first tick. -/
theorem long_poll_agrees_on_order :
    let s := (sample {} 1000).run
      (.publish (.newOrder "a" "x" "1") :: List.replicate 4 (.advance 0 .done))
    let r : PollRequest := { subject := .admin }
    ∃ t u page, s.poll? r false = some (t, 1) ∧
      s.poll? { r with longPoll := true } false = some (u, 1) ∧
      (t.run [.advance 1 .waiting, .advance 1 .done]).pollResult? 1 = some (.ok page) ∧
      page.events.map (·.entityId) = ["a"] ∧
      (u.run ([.advance 2 .waiting, .advance 2 .waiting, .advance 2 .waiting, .advance 2 .done] ++
          [.advance 1 .waiting])).pollResult? 1 =
        some (.ok (page.withInterval (.ofMillis 30000))) := by
  intro s r
  have hs : s.Reachable := ⟨{}, sampleIds, 1000, _, _, start?_sample (by decide) 1000, rfl⟩
  let t := s.spawn (.read ⟨r.query s.settings, (r.query s.settings).start⟩)
  have h : s.poll? r false = some (t, 1) := rfl
  obtain ⟨u, i, h', hagree, -⟩ := (long_poll_agrees_iff hs rfl rfl h).2 (by decide)
  obtain ⟨hid, ⟨hplain, -⟩ | ⟨-, hu⟩⟩ := of_poll? h'
  · cases hplain
  obtain rfl : i = 1 := hid
  obtain rfl := hu
  obtain ⟨page, hpage⟩ :
      ∃ page, (t.run [.advance 1 .waiting, .advance 1 .done]).pollResult? 1 = some (.ok page) :=
    ⟨_, rfl⟩
  have hevents : ((t.run [.advance 1 .waiting, .advance 1 .done]).pollResult? 1).map
      (·.toOption.map (·.events.map (·.entityId))) = some (some ["a"]) := by decide +kernel
  rw [hpage] at hevents
  have hfound : page.events.map (·.entityId) = ["a"] := Option.some.inj (Option.some.inj hevents)
  refine ⟨t, _, page, h, h', hpage, hfound, hagree [.advance 1 .waiting, .advance 1 .done] _
    (fun y hy => givesUp_fetchTurns hy)
    (fetchesAlike_alone hs.paired h h' (by decide) [.waiting, .done]) (.ok page) hpage
    (fun page' hsame hnone => ?_) .waiting⟩
  cases hsame
  rw [hnone] at hfound
  cases hfound

/-- Settings whose long polls the timer cannot time are accepted. -/
theorem no_long_poll_beyond_timer :
    ¬ ∀ (s : Service) (r : PollRequest), s.Reachable → s.settings.validate = .ok () →
      ∃ u i, s.poll? { r with longPoll := true } false = some (u, i) := by
  intro hall
  let settings : QueueSettings := { longPollTimeout := .ofSeconds Text.maxWord64 }
  have hs : (sample settings 1000).Reachable :=
    ⟨settings, sampleIds, 1000, _, [], start?_sample (by decide) 1000, rfl⟩
  have hshort := (exists_long_poll_iff _ _ _).1 (hall _ { subject := .admin } hs rfl)
  exact absurd hshort (by decide)

end Service

end NotificationQueue
