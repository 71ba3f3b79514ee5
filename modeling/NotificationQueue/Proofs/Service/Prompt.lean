import NotificationQueue.Proofs.Service.Writes
import NotificationQueue.Proofs.Store.Trimming

/-!
Runs in which the store answers at once. Time passes only when nothing else can happen, and never
beyond the next reading of the timer for which a task waits; no call fails, and no caller leaves a
write that is under way. Every queue has then been trimmed whenever time passes, and what comes in
later goes behind all that readers have been granted.
-/
namespace NotificationQueue
set_option autoImplicit false

/-! ## Prompt runs -/

/-- A write whose append has been answered, and which has not ended. -/
def Task.isUnderWay : Task → Bool
  | .write w =>
    match w.phase with
    | .appending | .finished _ => false
    | _ => true
  | _ => false

namespace Service

/-- A task can take a step without time passing: by itself, or with an answer of the store. -/
def canGoOn (s : Service) (i : Nat) : Bool :=
  (s.tasks[i]?.bind Task.call?).isSome || s.isReady i

def IsStill (s : Service) : Prop :=
  ∀ i < s.tasks.size, s.canGoOn i = false

instance (s : Service) : Decidable s.IsStill :=
  inferInstanceAs (Decidable (∀ i < _, _))

/-- No task waits for a time of the timer that is over when some milliseconds have passed. -/
def Oversleeps (s : Service) (millis : Nat) : Prop :=
  ∃ i < s.tasks.size, (s.tasks[i]?.bind Task.wake?).any (· < s.now + millis)

instance (s : Service) (millis : Nat) : Decidable (s.Oversleeps millis) :=
  inferInstanceAs (Decidable (∃ i < _, _))

/-- A move that can be made while the store answers all its calls at once: a write then gives its
caller no time to leave it between them. -/
def IsPrompt (s : Service) : Move → Prop
  | .advance _ (.failed _) => False
  | .drop i => (s.tasks[i]?.any Task.isUnderWay) = false
  | .elapse millis => s.IsStill ∧ ¬ s.Oversleeps millis
  | _ => True

instance (s : Service) (m : Move) : Decidable (s.IsPrompt m) :=
  match m with
  | .advance _ (.failed _) => .isFalse id
  | .advance _ .waiting | .advance _ .done => .isTrue trivial
  | .drop _ => inferInstanceAs (Decidable (_ = false))
  | .elapse _ => inferInstanceAs (Decidable (_ ∧ _))
  | .publish _ | .poll _ _ | .probe | .shutdown | .purgeEvery _ | .cancel _ | .skew _ =>
    .isTrue trivial

def Prompt (s : Service) : List Move → Prop
  | [] => True
  | m :: ms => s.IsPrompt m ∧ (s.move m).Prompt ms

instance decidablePrompt (s : Service) : (ms : List Move) → Decidable (s.Prompt ms)
  | [] => .isTrue trivial
  | m :: ms =>
    have := decidablePrompt (s.move m) ms
    inferInstanceAs (Decidable (_ ∧ _))

variable {s : Service} {key : String} {m : Move} {i : Nat} {u : Task}

theorem prompt_append {ms ns : List Move} :
    s.Prompt (ms ++ ns) ↔ s.Prompt ms ∧ (s.run ms).Prompt ns := by
  induction ms generalizing s with
  | nil => exact (and_iff_right trivial).symm
  | cons m ms ih => exact (and_congr_right fun _ => ih).trans and_assoc.symm

theorem IsStill.canGoOn (h : s.IsStill) (hu : s.tasks[i]? = some u) : s.canGoOn i = false :=
  h i (lt_size_of_getElem? hu)

theorem le_of_not_oversleeps {millis t : Nat} (h : ¬ s.Oversleeps millis)
    (hu : s.tasks[i]? = some u) (ht : u.wake? = some t) : s.now + millis ≤ t := by
  refine Nat.le_of_not_lt fun hlt => h ⟨i, lt_size_of_getElem? hu, ?_⟩
  rw [hu, Option.bind_some, ht, Option.any_some]
  exact decide_eq_true hlt

theorem IsPrompt.answer {a : Answer} (h : s.IsPrompt (.advance i a)) :
    a = .waiting ∨ a = .done := by
  cases a with
  | waiting => exact .inl rfl
  | done => exact .inr rfl
  | failed f => exact h.elim

/-! ## What a move does to a queue -/

theorem entries_move (hs : s.store.Sound) (m : Move) (key : String) :
    (∃ i w, m = .advance i .done ∧ s.tasks[i]? = some (.write w) ∧ w.phase = .appending ∧
      w.key = key ∧ (s.move m).store.entries key =
        Queue.insertEntry ⟨w.score, s.store.nextSequence, w.event⟩
          (s.store.liveEntries key s.wall)) ∨
    (s.change? m = some (.trim key s.settings.pageSize) ∧ (s.move m).store.entries key =
      Queue.newest s.settings.pageSize (s.store.entries key)) ∨
    (s.change? m ≠ some (.trim key s.settings.pageSize) ∧
      (s.move m).store.entries key <:+ s.store.entries key) := by
  have hstore := (s.changed_move m).store
  cases hc : s.change? m with
  | none =>
    rw [hc] at hstore
    have hsame : (s.move m).store = s.store := hstore
    exact .inr (.inr ⟨nofun, hsame ▸ List.suffix_refl _⟩)
  | some c =>
    rw [hc] at hstore
    have hcalled : (s.move m).store = (s.store.call s.wall c).2 := hstore
    rw [hcalled]
    rcases Store.entries_call hs s.wall c key with
      ⟨score, event, rfl, hentries⟩ | ⟨n, rfl, hentries⟩ | ⟨-, htrims, hsuffix, -⟩
    · rcases change?_cases hc with ⟨i, w, rfl, hw, hp, happend⟩ | ⟨k, h⟩ | ⟨k, h⟩ | h
      · cases happend
        exact .inl ⟨i, w, rfl, hw, hp, rfl, hentries⟩
      · cases h
      · cases h
      · cases h
    · obtain rfl := keep_of_change? hc
      exact .inr (.inl ⟨rfl, hentries⟩)
    · refine .inr (.inr ⟨fun htrim => ?_, hsuffix⟩)
      rw [Option.some.inj htrim] at htrims
      simp [Store.Call.trims] at htrims

/-! ## Trimmed queues -/

/-- A queue is no longer than a trim leaves it, or a write that has landed in it is going to trim
it. -/
def Trims (s : Service) (key : String) : Prop :=
  (s.store.entries key).length ≤ Queue.most s.settings.pageSize ∨
    ∃ (i : Nat) (w : Write), s.tasks[i]? = some (.write w) ∧ w.key = key ∧
      (w.phase = .releasing (.ok ()) ∨ w.phase = .trimming)

theorem Trims.move (h : s.Trims key) (hl : s.Linked) (hs : s.store.Sound) (hm : s.IsPrompt m) :
    (s.move m).Trims key := by
  have hsettings := (s.changed_move m).settings
  rcases entries_move hs m key with
    ⟨i, w, rfl, hw, hp, hkey, -⟩ | ⟨-, hentries⟩ | ⟨hother, hsuffix⟩
  · refine .inr ⟨i, _, advance_write hw .done, hkey, .inl ?_⟩
    rw [hp]
    rfl
  · left
    rw [hentries, hsettings]
    exact Queue.length_newest_le _ _
  · rcases h with hshort | ⟨i, w, hw, hkey, hphase⟩
    · left
      rw [hsettings]
      exact Nat.le_trans hsuffix.length_le hshort
    · right
      have hstays : m ≠ .drop i := by
        rintro rfl
        rw [IsPrompt, hw, Option.any_some] at hm
        rcases hphase with hp | hp <;> simp [Task.isUnderWay, hp] at hm
      have hnext := move_write hl hw (.inr hstays)
      cases hturn : m.turn? i with
      | none =>
        rw [hturn] at hnext
        exact ⟨i, w, hnext, hkey, hphase⟩
      | some a =>
        obtain rfl := Move.turn?_eq_some.1 hturn
        rw [hturn, Option.elim_some] at hnext
        refine ⟨i, _, hnext, hkey, .inr ?_⟩
        rcases hphase with hp | hp
        · rw [hp]
          rfl
        · -- With an answer the write would trim the queue, which this move does not do.
          rcases hm.answer with rfl | rfl
          · rw [hp]
            rfl
          · refine absurd ?_ hother
            rw [change?, hw, Option.bind_some, Task.change?, hp, hkey]

/-- **Whenever time passes, every queue is as short as a trim leaves it.** -/
theorem Trims.length_le (h : s.Trims key) (hstill : s.IsStill) :
    (s.store.entries key).length ≤ Queue.most s.settings.pageSize := by
  rcases h with hshort | ⟨i, w, hw, -, hphase⟩
  · exact hshort
  · have hstuck := hstill.canGoOn hw
    rcases hphase with hp | hp <;> simp [canGoOn, isReady, Task.call?, hw, hp] at hstuck

theorem trims_start? {settings : QueueSettings} {ids : Nat → Uuid} {wall : Score}
    (h : start? settings ids wall = some s) (key : String) : s.Trims key := by
  obtain ⟨slots, rfl⟩ := start?_eq_some h
  exact .inl (Nat.zero_le _)

theorem Trims.run (h : s.Trims key) (hs : s.Reachable) {ms : List Move} (hms : s.Prompt ms) :
    (s.run ms).Trims key := by
  induction ms generalizing s with
  | nil => exact h
  | cons m ms ih =>
    exact ih (h.move hs.linked hs.stamped.store hms.1) (hs.run [m]) hms.2

end Service

/-! ## What is granted stays in front -/

namespace Core

variable {c c' : Core} {l : Option Notice} {d : Int}

/-- No two writes have one score, and one that still has to land is pending, up to the last score of
the calendar, which is given again and again. -/
structure Reserved (c : Core) : Prop where
  distinct : ∀ i j v w, c.writes i = some v → c.writes j = some w → v.score = w.score →
    i = j ∨ v.score = Timestamp.latest.score
  pending : ∀ i w, c.writes i = some w → w.phase.Holds →
    w.score ∈ c.clock.pending ∨ w.score = Timestamp.latest.score

theorem Reserved.fades (h : c.Reserved) (hf : c.Fades c') : c'.Reserved where
  distinct i j v' w' hv' hw' heq := by
    obtain ⟨v, hv, -, hvscore, -⟩ := hf.write i v' hv'
    obtain ⟨w, hw, -, hwscore, -⟩ := hf.write j w' hw'
    rw [hvscore] at heq ⊢
    exact h.distinct i j v w hv hw (heq.trans hwscore)
  pending i w' hw' hp := by
    obtain ⟨w, hw, -, hscore, -, hholds, -⟩ := hf.write i w' hw'
    rw [hscore]
    rcases h.pending i w hw (hholds hp) with hpending | hlatest
    · rcases hf.clock with hc | ⟨id, v, hv, hc, hidle⟩
      · exact .inl (hc ▸ hpending)
      · by_cases heq : w.score = v.score
        · -- The write whose reservation ends is another one, as this one still holds its own.
          rcases h.distinct i id w v hw hv heq with rfl | hlatest
          · exact absurd hp (hidle w' hw')
          · exact .inr hlatest
        · rw [hc]
          exact .inl (Clock.mem_pending_release.2 ⟨hpending, heq⟩)
    · exact .inr hlatest

theorem Stamped.ne_reserve (h : c.Stamped) {i : Nat} {w : Write} (hw : c.writes i = some w) :
    w.score ≠ (c.clock.reserve c.wall).1 ∨ w.score = Timestamp.latest.score := by
  have hscore : (c.clock.reserve c.wall).1 =
      min (c.clock.candidate c.wall) Timestamp.latest.score :=
    Clock.reserve_score h.clock.last_nonneg
  have hlast := (h.write i w hw).2.1
  have hcal := (h.write i w hw).2.2
  by_cases hcand : c.clock.candidate c.wall ≤ Timestamp.latest.score
  · have hnew := Clock.last_lt_of_candidate_le hcand
    left
    lia
  · by_cases heq : w.score = (c.clock.reserve c.wall).1
    · right
      lia
    · exact .inl heq

theorem Reserved.stamp (h : c.Reserved) (hs : c.Stamped) (id : Nat) (d : Draft) :
    (c.stamp id d).Reserved where
  distinct i j v w hv hw heq := by
    have hnew : ∀ {k u}, c.writes k = some u → u.score = (c.writeOf d).score →
        u.score = Timestamp.latest.score := fun hu heq =>
      (hs.ne_reserve hu).resolve_left fun hne => hne heq
    rcases writes_setWrite hv with ⟨rfl, hvnew⟩ | ⟨-, hvold⟩
    · cases hvnew
      rcases writes_setWrite hw with ⟨rfl, -⟩ | ⟨-, hwold⟩
      · exact .inl rfl
      · exact .inr (heq.trans (hnew hwold heq.symm))
    · rcases writes_setWrite hw with ⟨-, hwnew⟩ | ⟨-, hwold⟩
      · cases hwnew
        exact .inr (hnew hvold heq)
      · exact h.distinct i j v w hvold hwold heq
  pending i w hw hp := by
    rcases writes_setWrite hw with ⟨-, hnew⟩ | ⟨-, hold⟩
    · cases hnew
      exact .inl (Clock.mem_pending_reserve.2 (.inl rfl))
    · exact (h.pending i w hold hp).imp_left fun hpending =>
        Clock.mem_pending_reserve.2 (.inr hpending)

theorem Reserved.land (h : c.Reserved) {id : Nat} {w : Write} (hw : c.writes id = some w)
    (hp : w.phase = .appending) : (c.land id w).Reserved := by
  have hold : ∀ {i v}, (c.land id w).writes i = some v →
      ∃ u, c.writes i = some u ∧ v.score = u.score ∧ (v.phase.Holds → u.phase.Holds) := by
    intro i v hv
    rcases writes_setWrite hv with ⟨rfl, hlanded⟩ | ⟨-, hold⟩
    · cases hlanded
      exact ⟨w, hw, rfl, fun _ => hp ▸ trivial⟩
    · exact ⟨v, hold, rfl, fun hholds => hholds⟩
  refine ⟨fun i j v v' hv hv' heq => ?_, fun i v hv hholds => ?_⟩
  · obtain ⟨u, hu, hscore, -⟩ := hold hv
    obtain ⟨u', hu', hscore', -⟩ := hold hv'
    rw [hscore, hscore'] at heq
    rw [hscore]
    exact h.distinct i j u u' hu hu' heq
  · obtain ⟨u, hu, hscore, hholds'⟩ := hold hv
    rw [hscore]
    exact h.pending i u hu (hholds' hholds)

theorem Reserved.step (h : c.Reserved) (hs : c.Stamped) (hstep : c.Step l d c') :
    c'.Reserved := by
  rcases hstep.cases hs.store with ⟨-, hf⟩ | ⟨id, d, -, -, rfl⟩ | ⟨id, w, hw, hp, -, rfl⟩
  · exact h.fades hf
  · exact h.stamp hs id d
  · exact h.land hw hp

end Core

namespace Service

variable {s : Service} {key : String} {x : Entry} {i : Nat}

theorem Reachable.reserved (h : s.Reachable) : s.core.Reserved := by
  refine h.invariant (fun hstart => ?_) fun hs hc => hc.step hs
  obtain ⟨slots, rfl⟩ := start?_eq_some hstart
  refine ⟨fun i j v w hv => ?_, fun i w hw => ?_⟩
  · simp [core] at hv
  · simp [core] at hw

theorem Reachable.le_score_of_appending (hs : s.Reachable) (hx : x ∈ s.store.entries key)
    (hhorizon : x.score ≤ s.clock.horizon s.wall) {w : Write}
    (hw : s.tasks[i]? = some (.write w)) (hp : w.phase = .appending) : x.score ≤ w.score := by
  rcases hs.reserved.pending i w (core_writes hw) (hp ▸ trivial) with hpending | hlatest
  · have hlt : s.clock.horizon s.wall < w.score := hs.stamped.clock.horizon_lt hpending
    lia
  · rw [hlatest]
    exact (hs.stamped.entry key x hx).2.2

def ahead (s : Service) (key : String) (x : Entry) : Nat :=
  (s.store.entries key).countP fun y => y.Precedes x

/-- **Nothing gets in front of an entry that readers are granted.** -/
theorem ahead_move_le (hs : s.Reachable) (hx : x ∈ s.store.entries key)
    (hhorizon : x.score ≤ s.clock.horizon s.wall) (m : Move) :
    (s.move m).ahead key x ≤ s.ahead key x := by
  have hsound : s.store.Sound := hs.stamped.store
  unfold ahead
  rcases entries_move hsound m key with
    ⟨i, w, -, hw, hp, rfl, hentries⟩ | ⟨-, hentries⟩ | ⟨-, hsuffix⟩
  · have hscore := hs.le_score_of_appending hx hhorizon hw hp
    have hnumber := hsound.numbered w.key x hx
    have hbehind : ¬ (⟨w.score, s.store.nextSequence, w.event⟩ : Entry).Precedes x := by
      unfold Entry.Precedes
      lia
    rw [hentries, Queue.countP_insertEntry, if_neg (by simpa using hbehind)]
    exact (s.store.liveEntries_suffix w.key s.wall).sublist.countP_le
  · rw [hentries]
    exact (Queue.newest_suffix _ _).sublist.countP_le
  · exact hsuffix.sublist.countP_le

theorem ahead_lt_length (hx : x ∈ s.store.entries key) :
    s.ahead key x < (s.store.entries key).length := by
  refine Nat.lt_of_le_of_ne List.countP_le_length fun heq => ?_
  have hself : x.Precedes x := of_decide_eq_true (List.countP_eq_length.1 heq x hx)
  unfold Entry.Precedes at hself
  lia

end Service

end NotificationQueue
