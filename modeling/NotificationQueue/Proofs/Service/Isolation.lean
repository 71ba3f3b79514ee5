import NotificationQueue.Proofs.Service.Polls

/-!
What a poll keeps to. It shows events of the queue of its own key, as they were there at one of its
turns; and where two services agree on that queue, on the clock and on the wall clock whenever two
polls take the same turns, the two polls come to the same answer.
-/
namespace NotificationQueue
set_option autoImplicit false

/-! ## What is shown -/

def ReadPhase.Shows (P : Event → Prop) (phase : ReadPhase) : Prop :=
  ∀ b, phase = .finished (.ok b) → ∀ e ∈ b.events, P e

def LongPoll.Loop.Shows (P : Event → Prop) (loop : Loop) : Prop :=
  ∀ b, loop = .handed (.ok (.ready b)) → ∀ e ∈ b.events, P e

def PollState.Shows (P : Event → Prop) : PollState → Prop
  | .plain phase => phase.Shows P
  | .long _ result loop =>
    (∀ b, result = some (.ok (.ready b)) → ∀ e ∈ b.events, P e) ∧
      ∀ x, loop = some x → x.1.Shows P ∧ x.2.Shows P
  | .left => True

variable {P : Event → Prop} {q : Query} {s t : Service}

theorem ReadPhase.shows_start (P : Event → Prop) (q : Query) : q.start.Shows P := by
  intro b hb
  unfold Query.start at hb
  split at hb <;> cases hb

theorem ReadPhase.Shows.step {phase : ReadPhase} (h : phase.Shows P)
    (hlive : ∀ x ∈ s.store.liveEntries q.subject.key s.wall, P x.event) (a : Answer) :
    (phase.step q s.store s.clock s.wall a).Shows P := by
  intro b hb e he
  cases phase with
  | locating id => cases a <;> cases hb
  | bounding least => cases hb
  | ranging least greatest =>
    cases a with
    | waiting => cases hb
    | failed f => cases hb
    | done =>
      obtain ⟨-, x, hx, rfl⟩ := mem_of_ranging hb he
      exact hlive x (Query.mem_between.1 hx).1
  | finished r => exact h b hb e he

theorem Ticker.shows_fetch {k : Ticker} (hloop : k.loop.Shows P) (hread : k.read.Shows P)
    (hlive : ∀ x ∈ s.store.liveEntries k.query.subject.key s.wall, P x.event) (a : Answer) :
    (k.fetch s a).loop.Shows P ∧ (k.fetch s a).read.Shows P := by
  have hstep := hread.step hlive a
  refine ⟨fun b hb => ?_, by rw [fetch_read]; exact hstep⟩
  unfold fetch at hb
  dsimp only at hb
  split at hb
  · next r hr =>
    rcases LongPoll.Loop.of_fetched_handed hb with hb | ⟨b', hy, hb'⟩ | ⟨f, hf⟩
    · exact hloop b hb
    · cases hb'
      cases r with
      | error f => cases hy
      | ok b'' =>
        cases hy
        exact hstep b hr
    · cases hf
  · exact hloop b hb

theorem Ticker.shows_turn {k : Ticker} (hloop : k.loop.Shows P) (hread : k.read.Shows P)
    (hlive : ∀ x ∈ s.store.liveEntries k.query.subject.key s.wall, P x.event) (time : Nat)
    (a : Answer) : (k.turn s time a).loop.Shows P ∧ (k.turn s time a).read.Shows P := by
  unfold turn
  split
  · exact shows_fetch hloop hread hlive a
  · exact ⟨fun b hb => hloop b (LongPoll.Loop.of_tick_handed hb), ReadPhase.shows_start P _⟩

namespace PollState

variable {p : PollState} {settings : QueueSettings}

theorem shows_begin (P : Event → Prop) (q : Query) (long cancelled : Bool) :
    (begin q long cancelled).Shows P := by
  unfold begin
  split
  · refine ⟨nofun, fun x hx => ?_⟩
    cases hx
    exact ⟨nofun, ReadPhase.shows_start P q⟩
  · exact ReadPhase.shows_start P q

theorem shows_stopped {cancelled : Bool} {result : Option (Except Failure WaitOutcome)}
    (h : ∀ b, result = some (.ok (.ready b)) → ∀ e ∈ b.events, P e) :
    (PollState.long cancelled result none).Shows P := by
  refine ⟨h, fun x hx => ?_⟩
  cases hx

theorem Shows.next (h : p.Shows P)
    (hlive : ∀ x ∈ s.store.liveEntries q.subject.key s.wall, P x.event) (elapsed : Nat)
    (turn : PollTurn) : (p.next q s elapsed turn).Shows P := by
  cases p with
  | left => cases turn <;> exact h
  | plain phase =>
    cases turn with
    | caller a => exact ReadPhase.Shows.step h hlive a
    | leave => trivial
    | loop | cancel | stop => exact h
  | long cancelled result loop =>
    obtain ⟨hresult, hloop⟩ := h
    cases turn with
    | cancel => exact ⟨hresult, hloop⟩
    | leave => trivial
    | stop => exact shows_stopped hresult
    | loop a =>
      cases loop with
      | none => exact ⟨hresult, hloop⟩
      | some x =>
        obtain ⟨hhanded, hread⟩ := hloop x rfl
        refine ⟨hresult, fun y hy => ?_⟩
        cases hy
        exact Ticker.shows_turn (k := tickerOf q s x.1 x.2) hhanded hread hlive elapsed a
    | caller a =>
      cases result with
      | some r => exact ⟨hresult, hloop⟩
      | none =>
        cases loop with
        | none => exact ⟨hresult, hloop⟩
        | some x =>
          simp only [PollState.next]
          split
          · next r hr =>
            refine shows_stopped fun b hb => ?_
            cases hb
            exact (hloop x rfl).1 b (LongPoll.Loop.of_result?_ok hr)
          · split
            · refine shows_stopped fun b hb => ?_
              cases hb
            · exact ⟨hresult, hloop⟩

theorem Shows.after (h : p.Shows P) {turns : List (PollTurn × Service)}
    (hlive : ∀ x ∈ turns, ∀ y ∈ x.2.store.liveEntries q.subject.key x.2.wall, P y.event)
    (start : Nat) : (p.after q start turns).Shows P := by
  induction turns generalizing p with
  | nil => exact h
  | cons x turns ih =>
    have hfirst := h.next (hlive x List.mem_cons_self) (x.2.now - start) x.1
    exact ih hfirst fun y hy => hlive y (List.mem_cons_of_mem x hy)

theorem Shows.of_result? (h : p.Shows P) {page : PollResponse}
    (hr : p.result? settings q = some (.ok page)) : ∀ e ∈ page.events, P e := by
  cases p with
  | left => cases hr
  | plain phase =>
    obtain ⟨r, hphase, hr⟩ := Option.map_eq_some_iff.1 hr
    cases r with
    | error f => cases hr
    | ok b =>
      cases hr
      exact h b (ReadPhase.of_result?_eq_some hphase)
  | long cancelled result loop =>
    obtain ⟨r, rfl, hr⟩ := Option.map_eq_some_iff.1 hr
    cases r with
    | error f => cases hr
    | ok outcome =>
      cases hr
      cases outcome with
      | ready b => exact h.1 b rfl
      | timedOut => nofun

end PollState

/-- **A poll answers with events of the queue that it asks for**, each of which was there to be read
at some time after the poll began. -/
theorem Service.mem_of_pollResult? {r : PollRequest} {cancelled : Bool} {id : Nat} (hp : s.Paired)
    (h : s.poll? r cancelled = some (t, id)) {ms : List Move} {page : PollResponse}
    (hr : (t.run ms).pollResult? id = some (.ok page)) {e : Event} (he : e ∈ page.events) :
    ∃ before, before <+: ms ∧ ∃ x ∈ (t.run before).store.liveEntries r.subject.key
      (t.run before).wall, x.event = e := by
  rw [pollResult?_run hp h] at hr
  have hlive : ∀ x ∈ t.seen id r.longPoll ms,
      ∀ y ∈ x.2.store.liveEntries (r.query s.settings).subject.key x.2.wall,
        ∃ before, before <+: ms ∧ ∃ z ∈ (t.run before).store.liveEntries r.subject.key
          (t.run before).wall, z.event = y.event := by
    intro x hx y hy
    obtain ⟨before, hbefore, hservice⟩ := exists_of_mem_seen hx
    rw [hservice] at hy
    exact ⟨before, hbefore, y, hy, rfl⟩
  have hbegin := PollState.shows_begin
    (fun e => ∃ before, before <+: ms ∧ ∃ z ∈ (t.run before).store.liveEntries r.subject.key
      (t.run before).wall, z.event = e) (r.query s.settings) r.longPoll cancelled
  exact (hbegin.after hlive s.now).of_result? hr e he

/-! ## Services that agree -/

def Queue.content (q : Queue) : List (Score × Event) × Instant :=
  (q.entries.map Entry.content, q.deadline)

/-- Two services agree on the queue of a key, on the clock and on the wall clock. -/
structure Service.Agrees (s t : Service) (key : String) : Prop where
  settings : s.settings = t.settings
  queue : (s.store.queue? key).map Queue.content = (t.store.queue? key).map Queue.content
  clock : s.clock = t.clock
  wall : s.wall = t.wall

theorem Store.contents_eq (s : Store) (key : String) (wall : Score) :
    (s.liveEntries key wall).map Entry.content =
      (((s.queue? key).map Queue.content).filter fun x =>
        ! decide (x.2 ≤ Instant.ofScore wall)).elim [] Prod.fst := by
  unfold liveEntries live?
  cases s.queue? key with
  | none => rfl
  | some q =>
    rw [Option.map_some, Option.filter_some, Option.filter_some]
    cases h : q.isExpired (Instant.ofScore wall) with
    | true | false =>
      have hcontent : decide (q.content.2 ≤ Instant.ofScore wall) = _ := h
      rw [hcontent]
      rfl

/-- Two services look alike to who reads the queue of a key: the live contents of the queue and the
horizon are the same. -/
structure Service.LooksAlike (s t : Service) (key : String) : Prop where
  settings : s.settings = t.settings
  contents : (s.store.liveEntries key s.wall).map Entry.content =
    (t.store.liveEntries key t.wall).map Entry.content
  horizon : s.clock.horizon s.wall = t.clock.horizon t.wall

theorem Service.Agrees.looksAlike {key : String} (h : s.Agrees t key) : s.LooksAlike t key where
  settings := h.settings
  contents := by rw [Store.contents_eq, Store.contents_eq, h.queue, h.wall]
  horizon := by rw [h.clock, h.wall]

namespace Service.LooksAlike

theorem step_eq (h : s.LooksAlike t q.subject.key) (a : Answer) (phase : ReadPhase) :
    phase.step q s.store s.clock s.wall a = phase.step q t.store t.clock t.wall a :=
  ReadPhase.step_congr h.contents h.horizon a phase

theorem turn_eq {k : Ticker} (h : s.LooksAlike t k.query.subject.key) (time : Nat) (a : Answer) :
    k.turn s time a = k.turn t time a := by
  unfold Ticker.turn Ticker.fetch
  rw [h.step_eq, h.settings]

theorem next_eq (h : s.LooksAlike t q.subject.key) (elapsed : Nat) (turn : PollTurn)
    (p : PollState) : p.next q s elapsed turn = p.next q t elapsed turn := by
  cases p with
  | left => cases turn <;> rfl
  | plain phase =>
    cases turn with
    | caller a => exact congrArg PollState.plain (h.step_eq a phase)
    | loop | cancel | leave | stop => rfl
  | long cancelled result loop =>
    cases turn with
    | loop a =>
      cases loop with
      | none => rfl
      | some x =>
        have hticker : PollState.tickerOf q s x.1 x.2 = PollState.tickerOf q t x.1 x.2 :=
          tickerOf_congr h.settings q x.1 x.2
        have hturn := turn_eq (k := PollState.tickerOf q t x.1 x.2) h elapsed a
        simp only [PollState.next, hticker, hturn]
    | caller a =>
      cases result with
      | some r => rfl
      | none => cases loop <;> rfl
    | cancel | leave | stop => rfl

end Service.LooksAlike

/-- Polls that began at two readings of the timer take the same turns, each as long after its
beginning as the other one and at services that agree. -/
def SameTurns (key : String) (a b : Nat) :
    List (PollTurn × Service) → List (PollTurn × Service) → Prop :=
  List.Forall₂ fun x y => x.1 = y.1 ∧ x.2.Agrees y.2 key ∧ x.2.now - a = y.2.now - b

def AlikeTurns (key : String) (a b : Nat) :
    List (PollTurn × Service) → List (PollTurn × Service) → Prop :=
  List.Forall₂ fun x y => x.1 = y.1 ∧ x.2.LooksAlike y.2 key ∧ x.2.now - a = y.2.now - b

theorem SameTurns.alike {key : String} {a b : Nat} {xs ys : List (PollTurn × Service)}
    (h : SameTurns key a b xs ys) : AlikeTurns key a b xs ys :=
  h.imp fun _ _ ⟨hturn, hagree, htime⟩ => ⟨hturn, hagree.looksAlike, htime⟩

theorem AlikeTurns.after_eq {a b : Nat} {xs ys : List (PollTurn × Service)}
    (h : AlikeTurns q.subject.key a b xs ys) (p : PollState) :
    p.after q a xs = p.after q b ys := by
  unfold PollState.after
  induction h generalizing p with
  | nil => rw [List.foldl_nil, List.foldl_nil]
  | cons hxy _ ih =>
    obtain ⟨hturn, halike, htime⟩ := hxy
    rw [List.foldl_cons, List.foldl_cons, hturn, htime, halike.next_eq, ih]

/-! ## Polls that are left alone -/

def PollTurn.orTime (id : Nat) : PollTurn ⊕ Nat → Move
  | .inl turn => turn.move id
  | .inr millis => .elapse millis

def Task.IsPoll : Task → Prop
  | .read _ | .ticker _ | .waiter _ | .gone => True
  | _ => False

namespace Service

variable {id start i j a b : Nat} {long : Bool} {p p' : PollState} {key : String}

theorem core_of_isPoll (hl : s.Linked) {u : Task} (hu : s.tasks[i]? = some u) (hpoll : u.IsPoll) :
    (∀ x : Answer, (s.advance i x).core = s.core) ∧ (s.drop i).core = s.core := by
  unfold advance drop
  rw [hu]
  cases u with
  | read r => exact ⟨fun x => core_advanceRead hu x, core_setTask_of_none hu rfl rfl⟩
  | ticker k => exact ⟨fun x => core_advanceTicker hu x, core_setTask_of_none hu rfl rfl⟩
  | waiter w =>
    obtain ⟨k, hk, hloop⟩ := hl i w hu
    exact ⟨fun x => core_advanceWaiter hu, core_leave hu rfl rfl hk hloop⟩
  | gone => exact ⟨fun x => rfl, core_setTask_of_none hu rfl rfl⟩
  | _ => exact hpoll.elim

theorem Stands.isPoll (h : s.Stands id start long q p) :
    (∃ u, s.tasks[id]? = some u ∧ u.IsPoll) ∧
      (long = true → ∃ u, s.tasks[id + 1]? = some u ∧ u.IsPoll) := by
  cases p with
  | plain phase => exact ⟨⟨_, h.2, trivial⟩, fun hl => absurd (h.1.symm.trans hl) nofun⟩
  | long cancelled result loop =>
    refine ⟨⟨_, h.2.1, trivial⟩, fun _ => ⟨_, h.2.2, ?_⟩⟩
    cases loop <;> trivial
  | left => exact ⟨⟨_, h.1, trivial⟩, fun hl => ⟨_, h.2 hl, trivial⟩⟩

theorem core_turn (hl : s.Linked) (h : s.Stands id start long q p) {turn : PollTurn}
    (hturn : turn.isLoops = true → long = true) :
    (s.move (turn.move id)).core = s.core ∧ (s.move (turn.move id)).now = s.now := by
  obtain ⟨⟨u, hu, hpoll⟩, hnext⟩ := h.isPoll
  have hcaller := core_of_isPoll hl hu hpoll
  cases turn with
  | caller x => exact ⟨hcaller.1 x, now_advance s id x⟩
  | cancel => exact ⟨core_cancel s id, now_cancel s id⟩
  | leave => exact ⟨hcaller.2, now_drop s id⟩
  | loop x =>
    obtain ⟨k, hk, hloop⟩ := hnext (hturn rfl)
    exact ⟨(core_of_isPoll hl hk hloop).1 x, now_advance s _ x⟩
  | stop =>
    obtain ⟨k, hk, hloop⟩ := hnext (hturn rfl)
    exact ⟨(core_of_isPoll hl hk hloop).2, now_drop s _⟩

theorem Agrees.of_core {s' t' : Service} (h : s.Agrees t key) (hs : s'.core = s.core)
    (ht : t'.core = t.core) : s'.Agrees t' key := by
  have hstore : s'.store = s.store := congrArg Core.store hs
  have hstore' : t'.store = t.store := congrArg Core.store ht
  refine ⟨?_, ?_, ?_, ?_⟩
  · exact (congrArg Core.settings hs).trans (h.settings.trans (congrArg Core.settings ht).symm)
  · rw [hstore, hstore', h.queue]
  · exact (congrArg Core.clock hs).trans (h.clock.trans (congrArg Core.clock ht).symm)
  · exact (congrArg Core.wall hs).trans (h.wall.trans (congrArg Core.wall ht).symm)

theorem Agrees.elapse (h : s.Agrees t key) (millis : Nat) :
    (s.elapse millis).Agrees (t.elapse millis) key where
  settings := h.settings
  queue := h.queue
  clock := h.clock
  wall := congrArg (· + (millis : Int) * 1000) h.wall

theorem sameTurns_alone {xs : List (PollTurn ⊕ Nat)} (hs : s.Paired) (ht : t.Paired)
    (hagree : s.Agrees t key) (ha : a ≤ s.now) (hb : b ≤ t.now) (htime : s.now - a = t.now - b)
    (h : s.Stands i a long q p) (h' : t.Stands j b long q p')
    (hxs : ∀ turn, .inl turn ∈ xs → turn.isLoops = true → long = true) :
    SameTurns key a b (s.seen i long (xs.map (PollTurn.orTime i)))
      (t.seen j long (xs.map (PollTurn.orTime j))) := by
  induction xs generalizing s t p p' with
  | nil => exact .nil
  | cons x xs ih =>
    have hrest : ∀ turn, .inl turn ∈ xs → turn.isLoops = true → long = true :=
      fun turn hmem => hxs turn (List.mem_cons_of_mem x hmem)
    cases x with
    | inl turn =>
      -- A turn of a poll leaves its service as others see it, so that the two go on to agree.
      have hturn := hxs turn List.mem_cons_self
      obtain ⟨hcore, hnow⟩ := core_turn hs.linked h hturn
      obtain ⟨hcore', hnow'⟩ := core_turn ht.linked h' hturn
      have hlater := ih (hs.move (turn.move i)) (ht.move (turn.move j))
        (hagree.of_core hcore hcore') (hnow ▸ ha) (hnow' ▸ hb) (by rw [hnow, hnow', htime])
        (stands_turn hs ha h hturn) (stands_turn ht hb h' hturn) hrest
      rw [List.map_cons, List.map_cons, seen, seen]
      simp only [PollTurn.orTime, PollTurn.pollTurn?_move hturn]
      exact .cons ⟨rfl, hagree, htime⟩ hlater
    | inr millis =>
      have htime' : s.now + millis - a = t.now + millis - b := by omega
      exact ih (hs.move (.elapse millis)) (ht.move (.elapse millis)) (hagree.elapse millis)
        (ha.trans (Nat.le_add_right _ _)) (hb.trans (Nat.le_add_right _ _)) htime'
        (stands_apart hs h rfl) (stands_apart ht h' rfl) hrest

end Service

/-! ## Answers that agree -/

namespace Service

variable {r : PollRequest} {cancelled : Bool} {i j : Nat} {s' t' : Service}

theorem poll?_eq_none_iff (h : s.settings = t.settings) (r : PollRequest) (cancelled : Bool) :
    s.poll? r cancelled = none ↔ t.poll? r cancelled = none := by
  unfold poll? LongPoll.deadline?
  rw [h]
  split
  · split <;> simp
  · simp

/-- **Polls of the same queue that take the same turns answer alike**, whatever else the two
services hold, as long as they look alike at these turns. -/
theorem pollResult?_eq_of_alikeTurns (hs : s.Paired) (ht : t.Paired)
    (hsettings : s.settings = t.settings) (h : s.poll? r cancelled = some (s', i))
    (h' : t.poll? r cancelled = some (t', j)) {ms ns : List Move}
    (halike : AlikeTurns r.subject.key s.now t.now (s'.seen i (s'.isLongPoll i) ms)
      (t'.seen j (t'.isLongPoll j) ns)) :
    (s'.run ms).pollResult? i = (t'.run ns).pollResult? j := by
  rw [isLongPoll_poll? h, isLongPoll_poll? h'] at halike
  rw [pollResult?_run hs h, pollResult?_run ht h', ← hsettings]
  rw [AlikeTurns.after_eq (q := r.query s.settings) halike]

theorem pollResult?_eq_of_sameTurns (hs : s.Paired) (ht : t.Paired)
    (hsettings : s.settings = t.settings) (h : s.poll? r cancelled = some (s', i))
    (h' : t.poll? r cancelled = some (t', j)) {ms ns : List Move}
    (hsame : SameTurns r.subject.key s.now t.now (s'.seen i (s'.isLongPoll i) ms)
      (t'.seen j (t'.isLongPoll j) ns)) :
    (s'.run ms).pollResult? i = (t'.run ns).pollResult? j :=
  pollResult?_eq_of_alikeTurns hs ht hsettings h h' hsame.alike

theorem sameTurns_poll? (hs : s.Paired) (ht : t.Paired) (hagree : s.Agrees t r.subject.key)
    (h : s.poll? r cancelled = some (s', i)) (h' : t.poll? r cancelled = some (t', j))
    {xs : List (PollTurn ⊕ Nat)}
    (hxs : ∀ turn, .inl turn ∈ xs → turn.isLoops = true → s'.isLongPoll i = true) :
    SameTurns r.subject.key s.now t.now
      (s'.seen i (s'.isLongPoll i) (xs.map (PollTurn.orTime i)))
      (t'.seen j (t'.isLongPoll j) (xs.map (PollTurn.orTime j))) := by
  rw [isLongPoll_poll? h] at hxs
  rw [isLongPoll_poll? h, isLongPoll_poll? h']
  have hstands' := stands_poll? h'
  rw [← hagree.settings] at hstands'
  have hnow := now_poll? h
  have hnow' := now_poll? h'
  refine sameTurns_alone (hs.poll? h) (ht.poll? h')
    (hagree.of_core (core_poll? h) (core_poll? h')) (Nat.le_of_eq hnow.symm)
    (Nat.le_of_eq hnow'.symm) ?_ (stands_poll? h) hstands' hxs
  rw [hnow, hnow', Nat.sub_self, Nat.sub_self]

end Service

end NotificationQueue
