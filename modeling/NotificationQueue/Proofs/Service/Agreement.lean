import NotificationQueue.Proofs.Delivery.Pages
import NotificationQueue.Proofs.Service.Conservation
import NotificationQueue.Proofs.Service.Writes
import Mathlib.Data.List.Sort

/-!
Runs that publish the same. What a run publishes depends on its requests and the readings of the
wall clock at them alone; and once everything published has landed a queue holds just that, in the
order of the scores. So runs that differ in the size of the pool and in how their tasks take turns
end in the same queues, and polls of them in the same pages.
-/
namespace NotificationQueue
set_option autoImplicit false

/-! ## What is published -/

/-- What requests publish, each with the reading of the wall clock at it, from a number of ids given
and a last score on; and the last score behind them. -/
def recordOf (ids : Nat → Uuid) (ttl issued : Nat) (last : Score) :
    List (Score × PublishRequest) → List Notice × Score
  | [] => ([], last)
  | (wall, r) :: rest =>
    match r.draft wall with
    | .ok d =>
      let clock : Clock := { last }
      let (log, final) := recordOf ids ttl (issued + 1) (clock.candidate wall) rest
      (⟨d.subject, d.event (ids issued) (clock.reserve wall).1 ttl⟩ :: log, final)
    | .error _ => recordOf ids ttl issued last rest

theorem Core.Step.stamps_none {c c' : Core} {d : Int} (h : c.Step none d c') :
    c'.issued = c.issued ∧ c'.clock.last = c.clock.last := by
  cases h <;> exact ⟨rfl, rfl⟩

def Move.request? : Move → Option PublishRequest
  | .publish r => some r
  | _ => none

namespace Service

variable {s t : Service}

def requests (s : Service) : List Move → List (Score × PublishRequest)
  | [] => []
  | m :: ms => (m.request?.map (s.wall, ·)).toList ++ (s.move m).requests ms

/-- **What a run publishes, and its last score, depend on its requests alone.** -/
theorem log_eq_recordOf (hl : s.Linked) (ms : List Move) :
    (s.log ms, (s.run ms).clock.last) =
      recordOf s.ids s.settings.retention.seconds s.issued s.clock.last (s.requests ms) := by
  induction ms generalizing s with
  | nil => rfl
  | cons m ms ih =>
    have hstep := step_move hl m
    have hids : (s.move m).ids = s.ids := hstep.ids
    have hsettings : (s.move m).settings = s.settings := hstep.settings
    have hrest := ih (hl.move m)
    rw [hids, hsettings] at hrest
    have hquiet : s.posted? m = none →
        (s.log (m :: ms), (s.run (m :: ms)).clock.last) =
          recordOf s.ids s.settings.retention.seconds s.issued s.clock.last
            ((s.move m).requests ms) := by
      intro hnone
      rw [hnone] at hstep
      obtain ⟨hissued, hlast⟩ := hstep.stamps_none
      have hissued : (s.move m).issued = s.issued := hissued
      have hlast : (s.move m).clock.last = s.clock.last := hlast
      rw [hissued, hlast] at hrest
      rw [log, hnone]
      exact hrest
    cases m with
    | publish r =>
      cases hd : r.draft s.wall with
      | error f =>
        have hnone : s.posted? (.publish r) = none := by simp only [posted?, hd]
        rw [hquiet hnone]
        simp only [requests, Move.request?, Option.map_some, Option.toList_some,
          List.singleton_append, recordOf, hd]
      | ok d =>
        have hmove : s.move (.publish r) = (s.submit d).1 := by rw [move_publish, hd]
        have hissued : (s.move (.publish r)).issued = s.issued + 1 := by
          rw [hmove, issued_submit]
        have hlast : (s.move (.publish r)).clock.last = s.clock.candidate s.wall := by
          rw [hmove]
          exact congrArg (fun c => c.clock.last) (core_submit s d)
        have hposted : s.posted? (.publish r) = some (s.notice d) := by simp only [posted?, hd]
        rw [hissued, hlast] at hrest
        rw [log, hposted, Option.toList_some, List.singleton_append, run_cons]
        simp only [requests, Move.request?, Option.map_some, Option.toList_some,
          List.singleton_append, recordOf, hd]
        exact congrArg (fun x : List Notice × Score => (s.notice d :: x.1, x.2)) hrest
    | _ => exact hquiet rfl

end Service

/-! ## What lands -/

def Write.appendsTo (w : Write) (key : String) : Bool :=
  w.key = key && match w.phase with
    | .appending => true
    | _ => false

theorem Write.appendsTo_iff {w : Write} {key : String} :
    w.appendsTo key = true ↔ w.key = key ∧ w.phase = .appending := by
  unfold appendsTo
  rw [Bool.and_eq_true, decide_eq_true_iff]
  cases w.phase <;> simp

def Entry.content (e : Entry) : Score × Event := (e.score, e.event)

namespace Service

variable {s t : Service} {key : String} {n : Notice}

/-- The event of a notice is about to land, or is in the queue of its subject. -/
def Held (s : Service) (n : Notice) : Prop :=
  (∃ (i : Nat) (w : Write), s.tasks[i]? = some (.write w) ∧ w.phase = .appending ∧
    w.key = n.subject.key ∧ w.event = n.event) ∨
  n.event ∈ (s.store.entries n.subject.key).map Entry.event

/-- A move loses an event of the queue of a key: its append fails, or its caller leaves it before it
has landed. -/
def loses (s : Service) (key : String) : Move → Bool
  | .advance i (.failed _) => (s.core.writes i).any (·.appendsTo key)
  | .drop i => (s.core.writes i).any fun w => w.appendsTo key && ! w.background
  | _ => false

def lands (s : Service) (key : String) : List Move → Bool
  | [] => true
  | m :: ms => ! s.loses key m && (s.move m).lands key ms

theorem entries_subset_move (hs : s.store.Sound) {m : Move}
    (hquiet : ∀ c, s.change? m = some c → s.store.isLive key s.wall = true ∧ c.sweeps key = false)
    (hshort : (s.store.entries key).length ≤ min (2 * s.settings.pageSize) Text.maxWord64) :
    s.store.entries key ⊆ (s.move m).store.entries key := by
  have hstore := (s.changed_move m).store
  cases hc : s.change? m with
  | none =>
    rw [hc] at hstore
    rw [hstore]
    exact List.Subset.refl _
  | some c =>
    obtain ⟨hlive, hsweeps⟩ := hquiet c hc
    have hlive := Store.liveEntries_of_isLive hlive
    rw [hc] at hstore
    have hcall : (s.move m).store = (s.store.call s.wall c).2 := hstore
    rw [hcall]
    rcases Store.entries_call hs s.wall c key with
      ⟨score, event, rfl, hentries⟩ | ⟨k, rfl, hentries⟩ | ⟨-, -, -, hsame⟩
    · rw [hentries, hlive]
      exact fun e he => Queue.mem_insertEntry.2 (.inr he)
    · rw [hentries, keep_of_change? hc, Queue.newest, if_pos hshort]
      exact List.Subset.refl _
    · rw [hsame hsweeps hlive]
      exact List.Subset.refl _

theorem Held.move (h : s.Held n) (hl : s.Linked) (hs : s.store.Sound) {m : Move}
    (hkeep : s.loses n.subject.key m = false)
    (hquiet : ∀ c, s.change? m = some c →
      s.store.isLive n.subject.key s.wall = true ∧ c.sweeps n.subject.key = false)
    (hshort : (s.store.entries n.subject.key).length ≤
      min (2 * s.settings.pageSize) Text.maxWord64) : (s.move m).Held n := by
  rcases h with ⟨i, w, hw, hphase, hkey, hevent⟩ | hstored
  · have hwrites : s.core.writes i = some w := core_writes hw
    have happends : w.appendsTo n.subject.key = true := Write.appendsTo_iff.2 ⟨hkey, hphase⟩
    have hdrop : w.background = true ∨ m ≠ .drop i := by
      by_contra hno
      obtain ⟨hback, hm⟩ := not_or.1 hno
      rw [not_not.1 hm, loses, hwrites, Option.any_some, happends] at hkeep
      simp [hback] at hkeep
    have hnext := move_write hl hw hdrop
    cases hturn : m.turn? i with
    | none =>
      rw [hturn] at hnext
      exact .inl ⟨i, w, hnext, hphase, hkey, hevent⟩
    | some a =>
      obtain rfl := Move.turn?_eq_some.1 hturn
      rw [hturn, Option.elim_some, hphase] at hnext
      cases a with
      | waiting => exact .inl ⟨i, _, hnext, rfl, hkey, hevent⟩
      | failed f =>
        rw [loses, hwrites, Option.any_some, happends] at hkeep
        cases hkeep
      | done =>
        right
        obtain ⟨x, hx, hsame⟩ := exists_landed_of_appending hw hphase
        exact List.mem_map.2 ⟨x, hkey ▸ hx, hsame.trans hevent⟩
  · right
    obtain ⟨e, he, hevent⟩ := List.mem_map.1 hstored
    exact List.mem_map.2 ⟨e, entries_subset_move hs hquiet hshort he, hevent⟩

theorem held_posted {m : Move} (h : s.posted? m = some n) : (s.move m).Held n := by
  cases m with
  | publish r =>
    simp only [posted?] at h
    split at h
    · next d hd =>
      cases h
      have hmove : s.move (.publish r) = (s.submit d).1 := by rw [move_publish, hd]
      rw [hmove]
      exact .inl ⟨_, _, submit_task s d, rfl, rfl, rfl⟩
    · cases h
  | _ => cases h

end Service

namespace Core

variable {c : Core} {log : List Notice}

/-! ## Queues and what has been published to them -/

def contentsOf (log : List Notice) (key : String) : List (Score × Event) :=
  (log.filter (·.subject.key = key)).map fun n => (n.event.score, n.event)

theorem mem_contentsOf {key : String} {x : Score × Event} :
    x ∈ contentsOf log key ↔
      ∃ n ∈ log, n.subject.key = key ∧ (n.event.score, n.event) = x := by
  simp only [contentsOf, List.mem_map, List.mem_filter, decide_eq_true_eq, and_assoc]

theorem Sound.contents_rising (h : c.Sound log) (key : String) :
    ((c.store.entries key).map Entry.content).Pairwise fun a b => a.1 < b.1 :=
  List.pairwise_map.2 (h.strict key)

theorem Sound.contentsOf_rising (h : c.Sound log) (key : String) :
    (contentsOf log key).Pairwise fun a b => a.1 < b.1 :=
  List.pairwise_map.2 (h.rising.sublist List.filter_sublist)

theorem nodup_of_rising {l : List (Score × Event)} (h : l.Pairwise fun a b => a.1 < b.1) :
    l.Nodup :=
  h.imp fun hlt heq => absurd (heq ▸ hlt) (Int.lt_irrefl _)

theorem Sound.contents_subset (h : c.Sound log) (key : String) :
    (c.store.entries key).map Entry.content ⊆ contentsOf log key := by
  intro x hx
  obtain ⟨e, he, rfl⟩ := List.mem_map.1 hx
  obtain ⟨n, hn, hkey, hevent, hscore⟩ := h.entry key e he
  refine mem_contentsOf.2 ⟨n, hn, hkey, ?_⟩
  rw [hevent, hscore]
  rfl

theorem Sound.length_entries_le (h : c.Sound log) (key : String) :
    (c.store.entries key).length ≤ (contentsOf log key).length := by
  have hsub := List.subperm_of_subset (nodup_of_rising (h.contents_rising key))
    (h.contents_subset key)
  have hlength := hsub.length_le
  rwa [List.length_map] at hlength

/-- **A queue that holds all events published to it holds just these, in their order.** -/
theorem Sound.contents_eq (h : c.Sound log) {key : String}
    (hall : ∀ n ∈ log, n.subject.key = key → n.event ∈ (c.store.entries key).map Entry.event) :
    (c.store.entries key).map Entry.content = contentsOf log key := by
  have hrising := h.contents_rising key
  have hlog := h.contentsOf_rising key
  have hperm : ((c.store.entries key).map Entry.content).Perm (contentsOf log key) := by
    refine (List.perm_ext_iff_of_nodup (nodup_of_rising hrising) (nodup_of_rising hlog)).2 ?_
    refine fun x => ⟨fun hx => h.contents_subset key hx, fun hx => ?_⟩
    obtain ⟨n, hn, hkey, rfl⟩ := mem_contentsOf.1 hx
    obtain ⟨e, he, hevent⟩ := List.mem_map.1 (hall n hn hkey)
    obtain ⟨-, -, -, -, hscore⟩ := h.entry key e he
    refine List.mem_map.2 ⟨e, he, ?_⟩
    rw [← hevent, hscore]
    rfl
  refine hperm.eq_of_pairwise (fun a b _ _ hab hba => ?_) hrising hlog
  exact absurd hba (Int.not_lt.2 (Int.le_of_lt hab))

end Core

namespace Service

variable {s t : Service} {key : String}

/-! ## Runs that lose nothing -/

theorem undisturbed_changes_cons {m : Move} {ms : List Move}
    (h : s.store.undisturbed key (s.changes (m :: ms)) = true) :
    (∀ c, s.change? m = some c → s.store.isLive key s.wall = true ∧ c.sweeps key = false) ∧
      (s.move m).store.undisturbed key ((s.move m).changes ms) = true := by
  have hstore := (s.changed_move m).store
  rw [changes] at h
  cases hc : s.change? m with
  | none =>
    rw [hc] at h hstore
    rw [hstore]
    refine ⟨fun c hsome => ?_, h⟩
    cases hsome
  | some c =>
    rw [hc] at h hstore
    have hcall : (s.move m).store = (s.store.call s.wall c).2 := hstore
    simp only [Option.toList_some, List.map_cons, List.map_nil, List.singleton_append,
      Store.undisturbed, Bool.and_eq_true, Bool.not_eq_true'] at h
    rw [hcall]
    refine ⟨fun c' hc' => ?_, h.2⟩
    obtain rfl := Option.some.inj hc'
    exact h.1

theorem held_run {log : List Notice} (h : s.core.Sound log) (hl : s.Linked)
    (hheld : ∀ n ∈ log, n.subject.key = key → s.Held n) {ms : List Move}
    (hcal : (s.run ms).clock.last ≤ Timestamp.latest.score) (hlands : s.lands key ms = true)
    (hquiet : s.store.undisturbed key (s.changes ms) = true)
    (hfew : (Core.contentsOf (log ++ s.log ms) key).length ≤
      min (2 * s.settings.pageSize) Text.maxWord64) :
    ∀ n ∈ log ++ s.log ms, n.subject.key = key → (s.run ms).Held n := by
  induction ms generalizing s log with
  | nil =>
    rw [Service.log, List.append_nil]
    exact hheld
  | cons m ms ih =>
    rw [lands, Bool.and_eq_true, Bool.not_eq_true'] at hlands
    obtain ⟨hkeep, hlands⟩ := hlands
    obtain ⟨hnow, hquiet⟩ := undisturbed_changes_cons hquiet
    have hsettings := (s.changed_move m).settings
    have hlog : log ++ s.log (m :: ms) =
        (log ++ (s.posted? m).toList) ++ (s.move m).log ms := by
      rw [Service.log, List.append_assoc]
    have hlast := Int.le_trans (last_le_run (hl.move m) hcal) hcal
    have hsound := h.step (step_move hl m) hlast
    have hshort : (s.store.entries key).length ≤
        min (2 * s.settings.pageSize) Text.maxWord64 := by
      refine Nat.le_trans (h.length_entries_le key) (Nat.le_trans ?_ hfew)
      rw [Core.contentsOf, Core.contentsOf, List.filter_append, List.map_append,
        List.length_append]
      exact Nat.le_add_right _ _
    rw [hlog]
    rw [hlog, ← hsettings] at hfew
    refine ih hsound (hl.move m) (fun n hn hkey => ?_) hcal hlands hquiet hfew
    rcases List.mem_append.1 hn with hold | hnew
    · subst hkey
      exact (hheld n hold rfl).move hl h.store hkeep hnow hshort
    · exact held_posted (Option.mem_toList.1 hnew)

/-- All that a run publishes to the queue of a key lands, nothing disturbs the queue, and no write
is left under way. -/
structure Fills (s : Service) (key : String) (ms : List Move) : Prop where
  lands : s.lands key ms = true
  quiet : s.store.undisturbed key (s.changes ms) = true
  idle : (s.run ms).Idle

theorem contents_run {settings : QueueSettings} {ids : Nat → Uuid} {wall : Score}
    (hs : start? settings ids wall = some s) {ms : List Move}
    (hcal : (s.run ms).clock.last ≤ Timestamp.latest.score) (hfills : s.Fills key ms)
    (hfew : (Core.contentsOf (s.log ms) key).length ≤
      min (2 * settings.pageSize) Text.maxWord64) :
    ((s.run ms).store.entries key).map Entry.content = Core.contentsOf (s.log ms) key := by
  have hl := linked_start? hs
  have hstart := sound_start? hs
  have hsettings : s.settings = settings := by
    obtain ⟨slots, rfl⟩ := start?_eq_some hs
    rfl
  rw [← hsettings] at hfew
  have hheld := held_run hstart hl nofun hcal hfills.lands hfills.quiet hfew
  refine (sound_run hstart hl hcal).contents_eq fun n hn hkey => ?_
  rcases hheld n hn hkey with ⟨i, w, hw, hphase, -, -⟩ | hstored
  · have hfinished := hfills.idle i w hw
    rw [Task.isFinished, hphase] at hfinished
    cases hfinished
  · rw [← hkey]
    exact hstored

end Service

/-! ## What is read -/

namespace Store

variable {s t : Store} {key : String} {wall : Score}

theorem find?_eq_contents (s : Store) (key : String) (id : Uuid) (wall : Score) :
    s.find? key id wall =
      (((s.liveEntries key wall).map Entry.content).find? fun x => x.2.id = id).map Prod.snd := by
  rw [find?_eq, List.find?_map, Option.map_map]
  rfl

theorem range_eq_contents (s : Store) (key : String) (least : Option Score) (greatest : Score)
    (limit : Nat) (wall : Score) :
    s.range key least greatest limit wall =
      ((((s.liveEntries key wall).map Entry.content).filter fun x =>
        least.getD Score.least ≤ x.1 && x.1 ≤ greatest).take limit).map Prod.snd := by
  rw [range_eq, List.filter_map, ← List.map_take, List.map_map]
  rfl

end Store

theorem ReadPhase.step_congr {q : Query} {store store' : Store} {clock clock' : Clock}
    {wall wall' : Score} (hcontents : (store.liveEntries q.subject.key wall).map Entry.content =
      (store'.liveEntries q.subject.key wall').map Entry.content)
    (hhorizon : clock.horizon wall = clock'.horizon wall') (a : Answer) (phase : ReadPhase) :
    phase.step q store clock wall a = phase.step q store' clock' wall' a := by
  cases phase with
  | locating id =>
    cases a with
    | done => simp only [step, Store.find?_eq_contents, hcontents]
    | waiting | failed => rfl
  | bounding least => simp only [step, hhorizon]
  | ranging least greatest =>
    cases a with
    | done => simp only [step, Store.range_eq_contents, hcontents]
    | waiting | failed => rfl
  | finished r => rfl

namespace Service

variable {s t : Service} {key : String}

/-- **Runs of the same requests fill a queue alike**, whatever the sizes of their pools and however
their tasks take turns, as long as no queue grows beyond what a trim leaves and the calendar
reaches: it holds in both what has been published to it, in the order of publishing, and every poll
of it reads the same page. -/
theorem same_pages_of_same_requests {settings : QueueSettings} {m n : Nat} {ids : Nat → Uuid}
    {wall wall' : Score} (hs : start? { settings with writeSlots := m } ids wall = some s)
    (ht : start? { settings with writeSlots := n } ids wall' = some t) {ms ns : List Move}
    (hsame : s.requests ms = t.requests ns)
    (hcal : (s.run ms).clock.last ≤ Timestamp.latest.score)
    (hfew : (Core.contentsOf (s.log ms) key).length ≤
      min (2 * settings.pageSize) Text.maxWord64)
    (hms : s.Fills key ms) (hns : t.Fills key ns) :
    ((s.run ms).store.entries key).map Entry.content = Core.contentsOf (s.log ms) key ∧
    ((t.run ns).store.entries key).map Entry.content = Core.contentsOf (s.log ms) key ∧
    ∀ (q : Query) (a b c : Score), q.subject.key = key →
      (∀ w ∈ [a, b, c], (s.run ms).store.isLive key w = true ∧
        (t.run ns).store.isLive key w = true) →
      q.resolve (s.run ms).store ⟨(s.run ms).clock, a⟩ ⟨(s.run ms).clock, b⟩
          ⟨(s.run ms).clock, c⟩ =
        q.resolve (t.run ns).store ⟨(t.run ns).clock, a⟩ ⟨(t.run ns).clock, b⟩
          ⟨(t.run ns).clock, c⟩ := by
  have hrecord : (s.log ms, (s.run ms).clock.last) = (t.log ns, (t.run ns).clock.last) := by
    rw [log_eq_recordOf (linked_start? hs), log_eq_recordOf (linked_start? ht), hsame]
    obtain ⟨slots, rfl⟩ := start?_eq_some hs
    obtain ⟨slots', rfl⟩ := start?_eq_some ht
    rfl
  obtain ⟨hlog, hlast⟩ := Prod.mk.inj hrecord
  have hs' := contents_run hs hcal hms hfew
  have ht' : ((t.run ns).store.entries key).map Entry.content =
      Core.contentsOf (t.log ns) key :=
    contents_run ht (hlast ▸ hcal) hns (hlog ▸ hfew)
  rw [← hlog] at ht'
  refine ⟨hs', ht', ?_⟩
  intro q a b c hkey hlive
  subst hkey
  -- With nothing pending the horizon is the present, and the last scores are the same.
  have hhorizon : ∀ w, (s.run ms).clock.horizon w = (t.run ns).clock.horizon w := by
    intro w
    have hpending := hms.idle.pending_eq_nil ⟨_, _, _, _, _, hs, rfl⟩
    have hpending' := hns.idle.pending_eq_nil ⟨_, _, _, _, _, ht, rfl⟩
    simp only [Clock.horizon, Clock.nowScore, hpending, hpending', hlast]
  have hcontents : ∀ w ∈ [a, b, c],
      ((s.run ms).store.liveEntries q.subject.key w).map Entry.content =
        ((t.run ns).store.liveEntries q.subject.key w).map Entry.content := by
    intro w hw
    obtain ⟨h, h'⟩ := hlive w hw
    rw [Store.liveEntries_of_isLive h, Store.liveEntries_of_isLive h', hs', ht']
  have hstep : ∀ w ∈ [a, b, c], ∀ phase : ReadPhase,
      phase.step q (s.run ms).store (s.run ms).clock w .done =
        phase.step q (t.run ns).store (t.run ns).clock w .done :=
    fun w hw phase => ReadPhase.step_congr (hcontents w hw) (hhorizon w) .done phase
  unfold Query.resolve
  simp only [hstep a (by simp), hstep b (by simp), hstep c (by simp)]

theorem requests_of_still (hl : s.Linked) {ms : List Move} (h : ∀ m ∈ ms, m.micros = 0) :
    s.requests ms = (ms.filterMap Move.request?).map (s.wall, ·) := by
  induction ms generalizing s with
  | nil => rfl
  | cons m ms ih =>
    have hwall : (s.move m).wall = s.wall + m.micros := (step_move hl m).wall
    rw [h m List.mem_cons_self, Int.add_zero] at hwall
    rw [requests, ih (hl.move m) fun x hx => h x (List.mem_cons_of_mem m hx), hwall]
    cases hm : m.request? with
    | none => rw [List.filterMap_cons_none hm, Option.map_none, Option.toList_none, List.nil_append]
    | some r => rw [List.filterMap_cons_some hm, List.map_cons, Option.map_some, Option.toList_some,
        List.singleton_append]

theorem idle_of_all (h : s.tasks.all Task.isFinished = true) : s.Idle := by
  intro i w hw
  exact Array.all_eq_true_iff_forall_mem.1 h _ (Array.mem_of_getElem? hw)

def twoWrites (i j : Nat) : List Move :=
  [.publish (.newOrder "a" "x" "1"), .publish (.newOrder "b" "x" "1")] ++
    List.replicate 4 (.advance i .done) ++ List.replicate 4 (.advance j .done)

/-- Without slots one order is written after the other, and with two slots the second lands first;
the queue is the same. -/
theorem same_pages_of_two_orders :
    let s := sample { writeSlots := 0 } 1000
    let t := sample { writeSlots := 2 } 1000
    let ms := twoWrites 0 1
    let ns := twoWrites 1 0
    (s.store.landed Subject.admin.key (s.changes ms)).map (·.event.entityId) = ["a", "b"] ∧
    (t.store.landed Subject.admin.key (t.changes ns)).map (·.event.entityId) = ["b", "a"] ∧
    ((s.run ms).store.entries Subject.admin.key).map Entry.content =
      ((t.run ns).store.entries Subject.admin.key).map Entry.content ∧
    adminQuery.resolve (s.run ms).store ⟨(s.run ms).clock, 2000⟩ ⟨(s.run ms).clock, 2000⟩
        ⟨(s.run ms).clock, 2000⟩ =
      adminQuery.resolve (t.run ns).store ⟨(t.run ns).clock, 2000⟩ ⟨(t.run ns).clock, 2000⟩
        ⟨(t.run ns).clock, 2000⟩ := by
  intro s t ms ns
  have hms : s.Fills Subject.admin.key ms :=
    ⟨by decide +kernel, by decide +kernel, idle_of_all (by decide +kernel)⟩
  have hns : t.Fills Subject.admin.key ns :=
    ⟨by decide +kernel, by decide +kernel, idle_of_all (by decide +kernel)⟩
  have hs : start? { ({} : QueueSettings) with writeSlots := 0 } sampleIds 1000 = some s :=
    start?_sample (by decide) 1000
  have ht : start? { ({} : QueueSettings) with writeSlots := 2 } sampleIds 1000 = some t :=
    start?_sample (by decide) 1000
  have hsame : s.requests ms = t.requests ns := by
    rw [requests_of_still (linked_start? hs) (by decide),
      requests_of_still (linked_start? ht) (by decide)]
    rfl
  have hcal : (s.run ms).clock.last ≤ Timestamp.latest.score := by decide +kernel
  have hfew : (Core.contentsOf (s.log ms) Subject.admin.key).length ≤
      min (2 * ({} : QueueSettings).pageSize) Text.maxWord64 := by decide +kernel
  obtain ⟨hcontents, hcontents', hpages⟩ :=
    same_pages_of_same_requests hs ht hsame hcal hfew hms hns
  refine ⟨by decide +kernel, by decide +kernel, hcontents.trans hcontents'.symm, ?_⟩
  exact hpages adminQuery 2000 2000 2000 rfl (by decide +kernel)

/-- Two orders are stamped at the last microsecond of the calendar. Their scores are the same, so
the one that lands first comes first. -/
theorem landing_order_at_the_end_of_the_calendar :
    ¬ ∀ (settings : QueueSettings) (m n : Nat) (ids : Nat → Uuid) (wall wall' : Score)
      (s t : Service) (ms ns : List Move) (key : String),
      start? { settings with writeSlots := m } ids wall = some s →
      start? { settings with writeSlots := n } ids wall' = some t →
      s.requests ms = t.requests ns →
      (Core.contentsOf (s.log ms) key).length ≤ min (2 * settings.pageSize) Text.maxWord64 →
      s.Fills key ms → t.Fills key ns →
      ((s.run ms).store.entries key).map Entry.content =
        ((t.run ns).store.entries key).map Entry.content := by
  intro hall
  let s := sample { writeSlots := 2 } 8210266876799999999
  have hms : s.Fills Subject.admin.key (twoWrites 0 1) :=
    ⟨by decide +kernel, by decide +kernel, idle_of_all (by decide +kernel)⟩
  have hns : s.Fills Subject.admin.key (twoWrites 1 0) :=
    ⟨by decide +kernel, by decide +kernel, idle_of_all (by decide +kernel)⟩
  have hs : start? { ({} : QueueSettings) with writeSlots := 2 } sampleIds 8210266876799999999 =
      some s := start?_sample (by decide) _
  have hrequests : s.requests (twoWrites 0 1) = s.requests (twoWrites 1 0) := by
    rw [requests_of_still (linked_start? hs) (by decide),
      requests_of_still (linked_start? hs) (by decide)]
    rfl
  have hsame := hall {} 2 2 sampleIds _ _ s s _ _ Subject.admin.key hs hs hrequests
    (by decide +kernel) hms hns
  have hids := congrArg (List.map fun x => x.2.entityId) hsame
  exact absurd hids (by decide +kernel)

end Service

end NotificationQueue
