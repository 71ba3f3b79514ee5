import NotificationQueue.Proofs.Service.Shutdown
import NotificationQueue.Proofs.Service.Ticks

/-!
Entries that long polls come up to. Once an entry can be read that a poll asks for, the poll does
not pass it: no read of the poll leaves it out, as nothing gets in front of it and time does not
pass before its queue is trimmed. What is left is for the next tick to come.
-/
namespace NotificationQueue
set_option autoImplicit false

/-! ## Entries that can be read -/

/-- An entry can be read by a query: it is stored, it has the type asked for, and it lies above the
cursor and within the horizon. -/
structure Service.Readable (s : Service) (q : Query) (x : Entry) : Prop where
  stored : x ∈ s.store.liveEntries q.subject.key s.wall
  fits : x.event.Fits q.type
  above : ∀ least ∈ q.lowerBound s.store s.wall, least ≤ x.score
  granted : x.score ≤ s.clock.horizon s.wall

/-- A read under way has not passed an entry. -/
def ReadPhase.Admits (q : Query) (x : Entry) : ReadPhase → Prop
  | .locating id => (cursorOf q.cursor).bind Uuid.read? = some id
  | .bounding least => ∀ bound ∈ least, bound ≤ x.score
  | .ranging least greatest => (∀ bound ∈ least, bound ≤ x.score) ∧ x.score ≤ greatest
  | .finished _ => False

theorem Query.isEmpty_ranged {q : Query} {store : Store} {wall greatest : Score}
    {least : Option Score} {x : Entry} (hs : store.Sound) (hlimit : 0 < q.limit)
    (hword : q.limit ≤ Text.maxWord64) (hx : x ∈ q.between store wall least greatest)
    (hfits : x.event.Fits q.type)
    (hahead : (store.entries q.subject.key).countP (fun y => y.Precedes x) < Queue.most q.limit) :
    (q.ranged store wall least greatest).isEmpty = false := by
  let l := q.between store wall least greatest
  have hempty : (q.select ((l.take q.fetchLimit).map Entry.event)).isEmpty = false := by
    rw [List.isEmpty_eq_false_iff]
    cases htype : q.type with
    | none =>
      have hpage : q.fetchLimit = q.limit := by rw [fetchLimit, htype]
      rw [select, htype, hpage]
      intro hnil
      rcases List.take_eq_nil_iff.1 (List.map_eq_nil_iff.1 hnil) with hzero | hnone
      · omega
      · exact List.ne_nil_of_mem hx hnone
    | some type =>
      have hsorted : l.Pairwise Entry.Precedes := (hs.sorted _).sublist between_sublist
      have hfew : l.countP (fun y => y.Precedes x) < q.fetchLimit := by
        rw [fetchLimit_eq_most htype hword]
        exact Nat.lt_of_le_of_lt between_sublist.countP_le hahead
      have hfetched : x ∈ l.take q.fetchLimit :=
        (Service.take_or_le_countP hsorted hx q.fetchLimit).resolve_right (by omega)
      have hkept : x.event ∈ ((l.take q.fetchLimit).map Entry.event).filter (·.type = type) :=
        List.mem_filter.2 ⟨List.mem_map_of_mem hfetched, decide_eq_true (hfits type htype)⟩
      rw [select, htype]
      intro hnil
      rcases List.take_eq_nil_iff.1 hnil with hzero | hnone
      · omega
      · exact List.ne_nil_of_mem hkept hnone
  exact hempty

namespace Service.Readable

variable {s : Service} {q : Query} {x : Entry}

theorem mem_entries (h : s.Readable q x) : x ∈ s.store.entries q.subject.key :=
  (s.store.liveEntries_suffix _ _).subset h.stored

theorem of_core {t : Service} (h : s.Readable q x) (hcore : t.core = s.core) : t.Readable q x := by
  have hstore : t.store = s.store := congrArg Core.store hcore
  have hclock : t.clock = s.clock := congrArg Core.clock hcore
  have hwall : t.wall = s.wall := congrArg Core.wall hcore
  obtain ⟨hstored, hfits, habove, hgranted⟩ := h
  rw [← hstore, ← hwall] at hstored habove
  rw [← hclock, ← hwall] at hgranted
  exact ⟨hstored, hfits, habove, hgranted⟩

end Service.Readable

namespace ReadPhase

variable {s : Service} {q : Query} {x : Entry} {read : ReadPhase} {a : Answer}

theorem admits_start (q : Query) (x : Entry) : q.start.Admits q x := by
  unfold Query.start
  split
  · next id h => exact h
  · exact fun bound hbound => nomatch hbound

theorem Admits.result? (h : read.Admits q x) : read.result? = none := by
  cases read with
  | finished r => exact h.elim
  | locating | bounding | ranging => rfl

theorem Admits.step (h : read.Admits q x) (hx : s.Readable q x)
    (hgoes : (read.step q s.store s.clock s.wall a).result? = none) :
    (read.step q s.store s.clock s.wall a).Admits q x := by
  cases read with
  | locating id =>
    cases a with
    | waiting => exact h
    | failed f => cases hgoes
    | done =>
      have hid : (cursorOf q.cursor).bind Uuid.read? = some id := h
      have habove := hx.above
      rw [Query.lowerBound, hid, Option.bind_some] at habove
      exact habove
  | bounding least => exact ⟨h, hx.granted⟩
  | ranging least greatest =>
    cases a with
    | waiting => exact h
    | failed f => cases hgoes
    | done => cases hgoes
  | finished r => exact h.elim

theorem Admits.mem_between {least : Option Score} {greatest : Score}
    (h : (ReadPhase.ranging least greatest).Admits q x) (hx : s.Readable q x)
    (hpos : 0 < x.score) : x ∈ q.between s.store s.wall least greatest := by
  refine Query.mem_between.2 ⟨hx.stored, ?_, h.2⟩
  cases least with
  | none =>
    show Score.least ≤ x.score
    unfold Score.least
    lia
  | some bound => exact h.1 bound rfl

end ReadPhase

/-! ## Up to the next tick -/

namespace QueueSettings

variable {settings : QueueSettings}

theorem pageSize_pos (h : settings.validate = .ok ()) : 0 < settings.pageSize := by
  unfold validate at h
  split at h
  · cases h
  · omega

theorem isZero_tickInterval (h : settings.validate = .ok ()) :
    settings.tickInterval.isZero = false := by
  unfold validate at h
  repeat' split at h
  all_goals cases h
  next htick _ => exact Bool.eq_false_iff.2 htick

theorem tickInterval_pos (h : settings.validate = .ok ()) :
    0 < settings.tickInterval.nanoseconds := by
  have hzero := isZero_tickInterval h
  rw [Duration.isZero, decide_eq_false_iff_not] at hzero
  omega

/-- The first tick of a long poll after some milliseconds of it. -/
def tickSince (settings : QueueSettings) (since : Nat) : Nat :=
  LongPoll.tickAfter 0 settings.tickInterval.nanoseconds (since * Duration.perMilli)

theorem lt_wake_tickSince (h : settings.validate = .ok ()) (since : Nat) :
    since < LongPoll.wake (settings.tickSince since) := by
  have hnext : since * Duration.perMilli < settings.tickSince since :=
    LongPoll.lt_tickAfter (tickInterval_pos h)
  exact Nat.lt_of_mul_lt_mul_right (Nat.lt_of_lt_of_le hnext (LongPoll.le_wake _))

/-- That tick is handled when the deadline of the poll has come. -/
def LateSince (settings : QueueSettings) (since : Nat) : Prop :=
  settings.longPollTimeout.nanoseconds ≤
    LongPoll.wake (settings.tickSince since) * Duration.perMilli

end QueueSettings

namespace PollState

/-- How many turns the loop of a poll takes from a tick that has come until it has found events. -/
def turnsLeft : LongPoll.Loop → ReadPhase → Nat
  | .handed _, _ | .crashed, _ => 0
  | .fetching _, .ranging _ _ | .fetching _, .finished _ => 1
  | .fetching _, .bounding _ => 2
  | .fetching _, .locating _ => 3
  | .waiting _, _ => 4
  | .starting, _ => 5

/-- Time has passed since an entry could be read, and the loop of a poll has not passed the entry:
it waits for its next tick, or is at it. -/
def Nears (settings : QueueSettings) (q : Query) (x : Entry) (since : Nat) :
    LongPoll.Loop → ReadPhase → Prop
  | .waiting due, _ => due = settings.tickSince since
  | .fetching _, read => read.Admits q x
  | .handed r, _ => LongPoll.Settles (settings.LateSince since) r
  | .starting, _ | .crashed, _ => False

variable {s : Service} {q : Query} {x : Entry} {loop : LongPoll.Loop} {read : ReadPhase}
  {since elapsed : Nat} {a : Answer}

theorem turnsLeft_step_lt (h : read.Admits q x) (next : Nat)
    (hgoes : (read.step q s.store s.clock s.wall .done).result? = none) :
    turnsLeft (.fetching next) (read.step q s.store s.clock s.wall .done) <
      turnsLeft (.fetching next) read := by
  cases read with
  | locating | bounding => exact Nat.lt_succ_self _
  | ranging => cases hgoes
  | finished => exact h.elim

/-- **A turn does not pass an entry that can be read**, and at its tick the loop comes nearer to it
by every turn in which the store answers. -/
theorem Nears.turn (h : Nears s.settings q x since loop read) (hs : s.Reachable)
    (hlimit : q.limit = s.settings.pageSize) (hpage : 0 < s.settings.pageSize)
    (hword : s.settings.pageSize ≤ Text.maxWord64) (hx : s.Readable q x)
    (hahead : s.ahead q.subject.key x < Queue.most s.settings.pageSize)
    (helapsed : elapsed ≤ LongPoll.wake (s.settings.tickSince since))
    (ha : a = .waiting ∨ a = .done) :
    let k := (tickerOf q s loop read).turn s elapsed a
    Nears s.settings q x since k.loop k.read ∧
      (s.settings.tickSince since ≤ elapsed * Duration.perMilli → a = .done →
        turnsLeft k.loop k.read ≤ turnsLeft loop read - 1) := by
  intro k
  cases loop with
  | starting => exact h.elim
  | waiting due =>
    have hdue : due = s.settings.tickSince since := h
    have hk : k = tickerOf q s ((LongPoll.Loop.waiting due).tick s.settings.tickInterval
      s.settings.longPollTimeout.nanoseconds elapsed) q.start := turn_of_waiting q s due read _ a
    rw [hk, LongPoll.Loop.tick_waiting]
    split
    · next hearly => exact ⟨hdue, fun hcome _ => absurd hearly (Nat.not_lt.2 (hdue ▸ hcome))⟩
    · split
      · next hlate =>
        exact ⟨Nat.le_trans hlate (Nat.mul_le_mul_right _ helapsed), fun _ _ => Nat.zero_le _⟩
      · refine ⟨ReadPhase.admits_start q x, fun _ _ => ?_⟩
        show turnsLeft (.fetching _) q.start ≤ 3
        cases q.start <;> simp [turnsLeft]
  | fetching next =>
    have hread : read.Admits q x := h
    rcases turn_of_fetching hread.result? ha next elapsed with
      ⟨hgoes, hturn⟩ | ⟨least, greatest, rfl, -, hloop⟩
    · have hk : k = tickerOf q s (.fetching next) (read.step q s.store s.clock s.wall a) := hturn
      rw [hk]
      refine ⟨hread.step hx hgoes, fun _ hdone => ?_⟩
      subst hdone
      exact Nat.le_sub_one_of_lt (turnsLeft_step_lt hread next hgoes)
    · have hpos : 0 < x.score := hs.stamped.entry_pos _ x hx.mem_entries
      have hmem := hread.mem_between hx hpos
      have hfound : (q.ranged s.store s.wall least greatest).isEmpty = false :=
        Query.isEmpty_ranged hs.stamped.store (hlimit ▸ hpage) (hlimit ▸ hword) hmem hx.fits
          (hlimit ▸ hahead)
      rw [hfound] at hloop
      have hk : k.loop = .handed (.ok (.ready (q.ranged s.store s.wall least greatest))) := hloop
      rw [hk]
      exact ⟨hfound, fun _ _ => Nat.zero_le _⟩
  | handed r => exact ⟨h, fun _ _ => Nat.zero_le _⟩
  | crashed => exact h.elim

/-- The loop of a poll, some milliseconds after the poll began, where an entry has been readable
since some other: it keeps to its ticks until time passes, and then comes up to the next one. -/
def Approaches (settings : QueueSettings) (q : Query) (x : Entry) (since elapsed : Nat)
    (loop : LongPoll.Loop) (read : ReadPhase) : Prop :=
  elapsed ≤ LongPoll.wake (settings.tickSince since) ∧
    if elapsed = since then LongPoll.OnGrid settings elapsed loop read
    else Nears settings q x since loop read

variable {settings : QueueSettings}

theorem Approaches.settles (h : Approaches settings q x since elapsed loop read)
    (hearly : since * Duration.perMilli < settings.longPollTimeout.nanoseconds)
    {r : Except Failure WaitOutcome} (hr : loop.result? = some r) :
    LongPoll.Settles (settings.LateSince since) r := by
  obtain ⟨-, hstands⟩ := h
  cases loop with
  | handed r' =>
    cases hr
    split at hstands
    · next hsame =>
      subst hsame
      exact LongPoll.Settles.imp hstands fun hlate => absurd hlate (Nat.not_le.2 hearly)
    · exact hstands
  | crashed => split at hstands <;> exact hstands.elim
  | starting | waiting | fetching => cases hr

theorem Approaches.turn (h : Approaches s.settings q x since elapsed loop read)
    (hs : s.Reachable) (hvalid : s.settings.validate = .ok ())
    (hword : s.settings.pageSize ≤ Text.maxWord64) (hlimit : q.limit = s.settings.pageSize)
    (hx : s.Readable q x)
    (hahead : elapsed ≠ since → s.ahead q.subject.key x < Queue.most s.settings.pageSize)
    (ha : a = .waiting ∨ a = .done) :
    Approaches s.settings q x since elapsed ((tickerOf q s loop read).turn s elapsed a).loop
      ((tickerOf q s loop read).turn s elapsed a).read := by
  obtain ⟨hwake, hstands⟩ := h
  refine ⟨hwake, ?_⟩
  by_cases hsame : elapsed = since
  · rw [if_pos hsame] at hstands ⊢
    exact onGrid_turn hstands (QueueSettings.isZero_tickInterval hvalid) ha
  · rw [if_neg hsame] at hstands ⊢
    exact (hstands.turn hs hlimit (QueueSettings.pageSize_pos hvalid) hword hx (hahead hsame)
      hwake ha).1

theorem Approaches.pass {due later : Nat}
    (h : Approaches settings q x since elapsed (.waiting due) read) (hsince : since ≤ elapsed)
    (hcomes : elapsed * Duration.perMilli < due) (hlater : elapsed ≤ later)
    (hwake : later ≤ LongPoll.wake due) :
    Approaches settings q x since later (.waiting due) read := by
  obtain ⟨-, hstands⟩ := h
  have hdue : due = settings.tickSince since := by
    split at hstands
    · next hsame =>
      obtain ⟨⟨n, rfl⟩, hle, -⟩ := hstands
      subst hsame
      exact LongPoll.eq_tickAfter hcomes hle
    · exact hstands
  refine ⟨hdue ▸ hwake, ?_⟩
  split
  · next hsame =>
    obtain rfl : elapsed = later := Nat.le_antisymm hlater (by omega)
    rw [if_pos hsame] at hstands
    exact hstands
  · exact hdue

end PollState

namespace Service

variable {s t : Service} {id start since : Nat} {q : Query} {x : Entry} {m : Move}

/-- A long poll is under way for an entry that has been readable since some milliseconds after the
poll began, and before its deadline. -/
structure Awaits (s : Service) (id start since : Nat) (q : Query) (x : Entry) : Prop where
  reachable : s.Reachable
  valid : s.settings.validate = .ok ()
  word : s.settings.pageSize ≤ Text.maxWord64
  limit : q.limit = s.settings.pageSize
  trims : s.Trims q.subject.key
  early : since * Duration.perMilli < s.settings.longPollTimeout.nanoseconds
  later : start + since ≤ s.now
  ahead : s.now - start ≠ since → s.ahead q.subject.key x < Queue.most s.settings.pageSize
  polls : s.Polls id start q (PollState.Approaches s.settings q x since (s.now - start))
    (LongPoll.Settles (s.settings.LateSince since))

theorem KeepsTicks.awaits (h : s.KeepsTicks id start q) (hs : s.Reachable)
    (hvalid : s.settings.validate = .ok ()) (hword : s.settings.pageSize ≤ Text.maxWord64)
    (hlimit : q.limit = s.settings.pageSize) (htrims : s.Trims q.subject.key)
    (hstart : start ≤ s.now)
    (hearly : (s.now - start) * Duration.perMilli < s.settings.longPollTimeout.nanoseconds)
    (hopen : s.pollResult? id = none) (x : Entry) :
    s.Awaits id start (s.now - start) q x := by
  refine ⟨hs, hvalid, hword, hlimit, htrims, hearly, by omega, fun hne => absurd rfl hne, ?_⟩
  obtain ⟨p, hstands, hwaits⟩ := h
  refine ⟨p, hstands, ?_⟩
  rcases hwaits.cases with ⟨loop, read, rfl, hloop⟩ | ⟨cancelled, r, loop, rfl, -⟩
  · refine ⟨rfl, Nat.le_of_lt (QueueSettings.lt_wake_tickSince hvalid _), ?_⟩
    rw [if_pos rfl]
    exact hloop
  · rw [pollResult?_of_stands hstands] at hopen
    cases hopen

theorem Awaits.start_le (h : s.Awaits id start since q x) : start ≤ s.now :=
  Nat.le_trans (Nat.le_add_right _ _) h.later

theorem Awaits.ahead_move (h : s.Awaits id start since q x) (hx : s.Readable q x)
    (hm : s.IsPrompt m) (hpassed : (s.move m).now - start ≠ since) :
    (s.move m).ahead q.subject.key x < Queue.most s.settings.pageSize := by
  refine Nat.lt_of_le_of_lt (ahead_move_le h.reachable hx.mem_entries hx.granted m) ?_
  by_cases hsame : s.now - start = since
  · rcases s.now_move m with ⟨millis, rfl⟩ | hnow
    · -- Time passes now, so the queue has been trimmed.
      exact Nat.lt_of_lt_of_le (ahead_lt_length hx.mem_entries) (h.trims.length_le hm.1)
    · exact absurd (hnow ▸ hsame) hpassed
  · exact h.ahead hsame

theorem Awaits.polls_move (h : s.Awaits id start since q x) (hx : s.Readable q x)
    (hm : s.IsPrompt m) (hstays : m.Stays id) :
    (s.move m).Polls id start q
      (PollState.Approaches s.settings q x since ((s.move m).now - start))
      (LongPoll.Settles (s.settings.LateSince since)) := by
  rcases s.now_move m with ⟨millis, rfl⟩ | hnow
  · have hsince : since ≤ s.now - start := by
      have := h.later
      omega
    have hlater : s.now - start ≤ s.now + millis - start :=
      Nat.sub_le_sub_right (Nat.le_add_right _ _) start
    refine h.polls.elapse h.start_le hm (fun next read hread => ?_) ?_ fun r hr => hr
    · obtain ⟨-, hread⟩ := hread
      split at hread
      · exact hread.2.2.2
      · exact ReadPhase.Admits.result? hread
    · intro due read hcomes hwake hloop
      exact hloop.pass hsince hcomes hlater hwake
  · rw [hnow]
    refine h.polls.move h.reachable.paired h.start_le hm hstays ?_ ?_
    · exact fun loop read r hloop hr => hloop.settles h.early hr
    · intro loop read a ha hloop
      exact hloop.turn h.reachable h.valid h.word h.limit hx h.ahead ha

theorem Awaits.move (h : s.Awaits id start since q x) (hx : s.Readable q x) (hm : s.IsPrompt m)
    (hstays : m.Stays id) : (s.move m).Awaits id start since q x := by
  have hsettings := (s.changed_move m).settings
  constructor
  case reachable => exact h.reachable.run [m]
  case valid => exact hsettings ▸ h.valid
  case word => exact hsettings ▸ h.word
  case limit => exact hsettings ▸ h.limit
  case trims => exact h.trims.move h.reachable.linked h.reachable.stamped.store hm
  case early => exact hsettings ▸ h.early
  case later => exact Nat.le_trans h.later (now_le_move s m)
  case ahead =>
    rw [hsettings]
    exact h.ahead_move hx hm
  case polls =>
    rw [hsettings]
    exact h.polls_move hx hm hstays

/-- **As long as the entry stays readable, the poll comes up to its next tick**, and is told nothing
else on the way. -/
theorem Awaits.run (h : s.Awaits id start since q x) {ms : List Move}
    (hx : ∀ before, before <+: ms → (s.run before).Readable q x) (hms : s.Prompt ms)
    (hstays : ∀ m ∈ ms, m.Stays id) : (s.run ms).Awaits id start since q x := by
  induction ms generalizing s with
  | nil => exact h
  | cons m ms ih =>
    refine ih (h.move (hx [] List.nil_prefix) hms.1 (hstays m List.mem_cons_self)) ?_ hms.2
      fun m' hm' => hstays m' (List.mem_cons_of_mem m hm')
    exact fun before hbefore => hx (m :: before) (List.cons_prefix_cons.2 ⟨rfl, hbefore⟩)

end Service

end NotificationQueue
