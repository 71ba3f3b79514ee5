import NotificationQueue.Proofs.Service.Changes
import NotificationQueue.Proofs.Service.Conservation
import NotificationQueue.Proofs.Service.Isolation

/-!
What subjects have to do with each other. Each has a queue of its own, which only moves made on its
behalf and purges touch. All share one clock, and that shows in one way only: a reservation that is
pending holds back the events from its score on, whosever they are.
-/
namespace NotificationQueue
set_option autoImplicit false

/-! ## On whose behalf a move is made -/

def Task.key? : Task → Option String
  | .write w => some w.key
  | .sweep key _ => some key
  | .read r => some r.query.subject.key
  | .ticker k => some k.query.subject.key
  | .waiter w => some w.query.subject.key
  | .probe _ | .drain _ | .purger _ | .gone => none

namespace Service

/-- The key of the queue on whose behalf a move is made. -/
def key? (s : Service) : Move → Option String
  | .publish r => (r.draft s.wall).toOption.map (·.subject.key)
  | .poll r _ => some r.subject.key
  | .advance id _ | .cancel id | .drop id => s.tasks[id]?.bind Task.key?
  | _ => none

variable {s t : Service} {m : Move} {key : String} {σ τ : Subject}

/-- **A queue changes by moves made on its own behalf and by purges only.** -/
theorem queue?_move_of_key?_ne (hkey : s.key? m ≠ some key) (hpurge : s.change? m ≠ some .purge) :
    (s.move m).store.queue? key = s.store.queue? key := by
  rw [(s.changed_move m).store]
  cases hc : s.change? m with
  | none => rfl
  | some c =>
    cases m with
    | advance id a =>
      obtain ⟨u, hu, hchange⟩ := Option.bind_eq_some_iff.1 hc
      have htask : u.key? ≠ some key := by
        rw [key?, hu] at hkey
        exact hkey
      unfold Task.change? at hchange
      split at hchange
      · next w =>
        have hne : key ≠ w.key := fun h => htask (congrArg some h.symm)
        split at hchange <;> cases hchange
        · exact (Store.queue?_append _ _ _ _ _ _).trans (if_neg hne)
        · refine (Store.queue?_trim _ _ _ _).trans ?_
          simp only [if_neg hne, Option.map_id']
      · next k =>
        have hne : key ≠ k := fun h => htask (congrArg some h.symm)
        cases hchange
        refine (Store.queue?_expire _ _ _ _ _).trans ?_
        simp only [if_neg hne, Option.map_id']
      · split at hchange <;> cases hchange
        exact absurd hc hpurge
      · cases hchange
    | _ => cases hc

theorem change?_ne_purge (hkey : s.key? m = some key) : s.change? m ≠ some .purge := by
  intro hpurge
  cases m with
  | advance id a =>
    obtain ⟨u, hu, hchange⟩ := Option.bind_eq_some_iff.1 hpurge
    rw [key?, hu, Option.bind_some] at hkey
    cases u with
    | purger p => cases hkey
    | write w =>
      cases a with
      | done =>
        simp only [Task.change?] at hchange
        split at hchange <;> cases hchange
      | waiting | failed => cases hchange
    | sweep k finished => cases finished <;> cases a <;> cases hchange
    | read | ticker | waiter | probe | drain | gone => cases a <;> cases hchange
  | _ => cases hpurge

theorem liveEntries_move_purge (hs : s.store.Sound) (hpurge : s.change? m = some .purge)
    (key : String) {wall : Score} (hwall : s.wall ≤ wall) :
    (s.move m).store.liveEntries key wall = s.store.liveEntries key wall := by
  rw [(s.changed_move m).store, hpurge]
  exact Store.liveEntries_purge hs.nodup key hwall

theorem wall_move_of_key? (hl : s.Linked) (hkey : s.key? m = some key) :
    (s.move m).wall = s.wall := by
  have hmicros : m.micros = 0 := by
    cases m with
    | elapse | skew => cases hkey
    | _ => rfl
  have hwall : (s.move m).wall = s.wall + m.micros := (step_move hl m).wall
  rw [hwall, hmicros, Int.add_zero]

end Service

/-! ## Whose events a queue holds -/

namespace Core

variable {c c' : Core} {log : List Notice} {l : Option Notice} {d : Int}

/-- Every event that is written or stored is one that has been published, under the key of its
subject; the ids of the published events are those given so far. However far the calendar reaches,
steps keep this. -/
structure Traced (c : Core) (log : List Notice) : Prop where
  stamped : c.Stamped
  ids : log.map (·.event.id) = (List.range c.issued).map c.ids
  write : ∀ i w, c.writes i = some w → Recorded log w.key w.score w.event
  entry : ∀ k, ∀ e ∈ c.store.entries k, Recorded log k e.score e.event

theorem Traced.step (h : c.Traced log) (hstep : c.Step l d c') :
    c'.Traced (log ++ l.toList) := by
  have hstamped := h.stamped.step hstep
  rcases hstep.cases h.stamped.store with ⟨rfl, hf⟩ | ⟨id, d, hfree, rfl, rfl⟩ |
    ⟨id, w, hw, hp, rfl, rfl⟩
  · rw [Option.toList_none, List.append_nil]
    refine ⟨hstamped, by rw [h.ids, hf.issued, hf.ids], fun i w' hw' => ?_, fun k e he => ?_⟩
    · obtain ⟨w, hw, hkey, hscore, hevent, -⟩ := hf.write i w' hw'
      rw [hkey, hscore, hevent]
      exact h.write i w hw
    · exact h.entry k e ((hf.store.suffix k).subset he)
  · refine ⟨hstamped, ?_, fun i w hw => ?_, fun k e he => (h.entry k e he).append _⟩
    · change _ = (List.range (c.issued + 1)).map c.ids
      rw [List.map_append, h.ids, List.range_succ, List.map_append]
      rfl
    · rcases writes_setWrite hw with ⟨-, hw⟩ | ⟨-, hw⟩
      · cases hw
        have hlast := h.stamped.clock.last_nonneg
        exact ⟨c.notice d, by simp, rfl, rfl, score_notice hlast d⟩
      · exact (h.write i w hw).append _
  · rw [Option.toList_none, List.append_nil]
    refine ⟨hstamped, h.ids, fun i v hv => ?_, fun k e he => ?_⟩
    · rcases writes_setWrite hv with ⟨-, hv⟩ | ⟨-, hv⟩
      · cases hv
        exact h.write id w hw
      · exact h.write i v hv
    · rcases entries_land he with ⟨rfl, rfl⟩ | he
      · exact h.write id w hw
      · exact h.entry k e he

theorem Traced.subject_eq (h : c.Traced log) (hids : Function.Injective c.ids) {m n : Notice}
    (hm : m ∈ log) (hn : n ∈ log) (hid : m.event.id = n.event.id) : m.subject = n.subject := by
  have hnodup : (log.map (·.event.id)).Nodup := by
    rw [h.ids]
    exact List.nodup_range.map hids
  rw [List.inj_on_of_nodup_map hnodup hm hn hid]

end Core

namespace Service

variable {s t : Service} {m : Move} {key : String} {σ τ : Subject}

theorem traced_start? {settings : QueueSettings} {ids : Nat → Uuid} {wall : Score}
    (h : start? settings ids wall = some s) : s.core.Traced [] := by
  have hsound := sound_start? h
  exact ⟨stamped_start? h, hsound.ids, hsound.write, hsound.entry⟩

theorem traced_run {log : List Notice} (h : s.core.Traced log) (hl : s.Linked) (ms : List Move) :
    (s.run ms).core.Traced (log ++ s.log ms) := by
  induction ms generalizing s log with
  | nil =>
    rw [Service.log, List.append_nil]
    exact h
  | cons m ms ih =>
    rw [Service.log, ← List.append_assoc]
    exact ih (h.step (step_move hl m)) (hl.move m)

theorem traced_of_start {settings : QueueSettings} {ids : Nat → Uuid} {wall : Score}
    (h : start? settings ids wall = some s) (ms : List Move) :
    (s.run ms).core.Traced (s.log ms) :=
  traced_run (traced_start? h) (linked_start? h) ms

/-! ## What the clock holds back -/

def shown (s : Service) (key : String) : List Entry :=
  (s.store.liveEntries key s.wall).filter fun x => x.score ≤ s.clock.horizon s.wall

theorem le_horizon_iff (hc : s.clock.Sound) {p : Score} (hp : p ≤ s.clock.last) :
    p ≤ s.clock.horizon s.wall ↔ ∀ r ∈ s.clock.pending, p < r := by
  constructor
  · intro h r hr
    exact Int.lt_of_le_of_lt h (hc.horizon_lt hr)
  · intro h
    cases hl : s.clock.pending with
    | nil =>
      rw [Clock.horizon_of_pending_eq_nil hl]
      lia
    | cons oldest rest =>
      have hlt : p < oldest := h oldest (by simp [hl])
      simp only [Clock.horizon, hl, Score.pred]
      lia

theorem le_horizon_iff_of_stored (hs : s.Reachable) {x : Entry} (hx : x ∈ s.store.entries key) :
    x.score ≤ s.clock.horizon s.wall ↔ ∀ p ∈ s.clock.pending, x.score < p :=
  le_horizon_iff hs.stamped.clock (hs.stamped.entry key x hx).2.1

theorem shown_eq (hs : s.Reachable) (key : String) :
    s.shown key = (s.store.liveEntries key s.wall).filter fun x =>
      ∀ p ∈ s.clock.pending, x.score < p := by
  refine List.filter_congr fun x hx => ?_
  have hstored : x ∈ s.store.entries key := (s.store.liveEntries_suffix _ _).subset hx
  simp only [le_horizon_iff_of_stored hs hstored]

theorem shown_move (hs : s.Reachable) {other : String} (hkey : s.key? m = some other)
    (hne : other ≠ key) (hpending : (s.move m).clock.pending = s.clock.pending) :
    (s.move m).shown key = s.shown key := by
  have hqueue : (s.move m).store.queue? key = s.store.queue? key :=
    queue?_move_of_key?_ne (fun h => hne (Option.some.inj (hkey.symm.trans h)))
      (change?_ne_purge hkey)
  have hlive : (s.move m).store.liveEntries key (s.move m).wall =
      s.store.liveEntries key s.wall := by
    rw [Store.liveEntries, Store.live?, hqueue, wall_move_of_key? hs.linked hkey]
    rfl
  have hafter : (s.move m).Reachable := hs.run [m]
  rw [shown_eq hafter, shown_eq hs, hlive, hpending]

/-! ## Isolation -/

/-- **Subjects are isolated.** After any run, for a subject: no other subject has its key; a move
made on behalf of another subject leaves its queue and the queue's deadline as they are, and so does
any other move that is not its own, but for purges, which drop what no reader sees; all events of
the queue have been published to it, and to no other subject if no id is given twice; polls of it
answer alike wherever they take the same turns and the queue and the horizon look alike; and what is
stored lies within the horizon unless a reservation is pending at or below it, which is held by a
write under way. So a move on behalf of another subject that leaves the reservations as they are
shows and hides nothing. -/
theorem subjects_isolated {settings : QueueSettings} {ids : Nat → Uuid} {wall : Score}
    {s₀ : Service} (hstart : start? settings ids wall = some s₀) (ms : List Move) (σ : Subject) :
    let s := s₀.run ms
    Function.Injective Subject.key ∧
    (∀ m τ, s.key? m = some (Subject.key τ) → τ ≠ σ →
      (s.move m).store.queue? σ.key = s.store.queue? σ.key) ∧
    (∀ m, s.key? m ≠ some σ.key →
      (s.move m).store.queue? σ.key = s.store.queue? σ.key ∨
      s.change? m = some .purge ∧ ∀ w ≥ s.wall,
        (s.move m).store.liveEntries σ.key w = s.store.liveEntries σ.key w) ∧
    (∀ x ∈ s.store.entries σ.key,
      (∃ n ∈ s₀.log ms, n.subject = σ ∧ n.event = x.event ∧ x.event.score = x.score) ∧
      (Function.Injective ids → ∀ n ∈ s₀.log ms, n.event.id = x.event.id → n.subject = σ)) ∧
    (∀ (t : Service) (r : PollRequest) (cancelled : Bool) (a b : Service × Nat)
      (later later' : List Move), t.Reachable → s.settings = t.settings → r.subject = σ →
      s.poll? r cancelled = some a → t.poll? r cancelled = some b →
      AlikeTurns σ.key s.now t.now (a.1.seen a.2 (a.1.isLongPoll a.2) later)
        (b.1.seen b.2 (b.1.isLongPoll b.2) later') →
      (a.1.run later).pollResult? a.2 = (b.1.run later').pollResult? b.2) ∧
    (∀ x ∈ s.store.entries σ.key,
      x.score ≤ s.clock.horizon s.wall ↔ ∀ p ∈ s.clock.pending, x.score < p) ∧
    (∀ p ∈ s.clock.pending, s.core.Awaits p) ∧
    ∀ m τ, s.key? m = some (Subject.key τ) → τ ≠ σ →
      (s.move m).clock.pending = s.clock.pending → (s.move m).shown σ.key = s.shown σ.key := by
  intro s
  have hs : s.Reachable := ⟨settings, ids, wall, s₀, ms, hstart, rfl⟩
  have htraced : s.core.Traced (s₀.log ms) :=
    traced_run (traced_start? hstart) (linked_start? hstart) ms
  have hne : ∀ {τ : Subject}, τ ≠ σ → τ.key ≠ σ.key := fun h heq => h (Subject.key_injective heq)
  refine ⟨fun _ _ => Subject.key_injective, fun m τ hkey hτ => ?_, fun m hkey => ?_, fun x hx => ?_,
    ?_, fun x hx => le_horizon_iff_of_stored hs hx, hs.accounted, fun m τ hkey hτ hpending => ?_⟩
  -- A purge is made on behalf of no subject, so the queue itself stays as it is.
  · exact queue?_move_of_key?_ne (fun h => hne hτ (Option.some.inj (hkey.symm.trans h)))
      (change?_ne_purge hkey)
  -- A purge may drop the queue, but only once no reader sees it.
  · by_cases hpurge : s.change? m = some .purge
    · exact .inr ⟨hpurge, fun w hw => liveEntries_move_purge hs.stamped.store hpurge σ.key hw⟩
    · exact .inl (queue?_move_of_key?_ne hkey hpurge)
  · obtain ⟨n, hn, hkey, hevent, hscore⟩ := htraced.entry σ.key x hx
    have hsubject : n.subject = σ := Subject.key_injective hkey
    refine ⟨⟨n, hn, hsubject, hevent, hscore⟩, fun hids n' hn' hid => ?_⟩
    have hids' : Function.Injective s.core.ids := by
      have hsame : s.core.ids = ids := (ids_run (linked_start? hstart) ms).trans (by
        obtain ⟨slots, rfl⟩ := start?_eq_some hstart
        rfl)
      rwa [hsame]
    rw [← hsubject]
    exact htraced.subject_eq hids' hn' hn (by rw [hid, hevent])
  · rintro t r cancelled a b later later' ht hsettings rfl ha hb halike
    exact pollResult?_eq_of_alikeTurns hs.paired ht.paired hsettings ha hb halike
  · exact shown_move hs hkey (hne hτ) hpending

def almostAdmin : Subject := .user "poll:admin:events"

/-- The user's event has landed, and is held back until the reservation of the administrators' event
ends, which was stamped before. -/
theorem subjects_isolated_behind_reservation :
    let ms := [.publish (.newOrder "a" "x" "1"),
      .publish (.orderStatusChange "b" "poll:admin:events" "paid"), .advance 1 .done,
      .advance 1 .done]
    let s := (sample {} 1000).run ms
    (s.store.entries almostAdmin.key).map Entry.score = [1001] ∧ s.shown almostAdmin.key = [] ∧
      (s.move (.advance 0 .done)).store.queue? almostAdmin.key =
        s.store.queue? almostAdmin.key ∧
      (s.move (.advance 0 .done)).shown almostAdmin.key = s.shown almostAdmin.key ∧
      (((s.move (.advance 0 .done)).move (.advance 0 .done)).shown almostAdmin.key).map
        Entry.score = [1001] := by
  intro ms s
  have hstart : start? {} sampleIds 1000 = some (sample {} 1000) := start?_sample (by decide) 1000
  obtain ⟨-, hframe, -, -, -, -, -, hshown⟩ := subjects_isolated hstart ms almostAdmin
  have hkey : s.key? (.advance 0 .done) = some Subject.admin.key := by decide +kernel
  have hpending : (s.move (.advance 0 .done)).clock.pending = s.clock.pending := by decide +kernel
  refine ⟨by decide +kernel, ?_, hframe _ .admin hkey (by decide),
    hshown _ .admin hkey (by decide) hpending, by decide +kernel⟩
  exact List.length_eq_zero_iff.1 (by decide +kernel)

end Service

end NotificationQueue
