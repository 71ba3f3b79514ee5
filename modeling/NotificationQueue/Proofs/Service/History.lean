import NotificationQueue.Proofs.Clock
import NotificationQueue.Proofs.Service.Core
import NotificationQueue.Proofs.Store.Entries

/-!
What a service has published. As long as the calendar reaches, scores rise from one publish to the
next; every write and every stored entry is a published event under the key of its subject; a write
that still has to land is pending, and nothing in the store has its score.
-/
namespace NotificationQueue
set_option autoImplicit false

/-! ## Keys -/

theorem Subject.key_injective {a b : Subject} (h : a.key = b.key) : a = b := by
  have hadmin : ∀ id : String, userKeyStart ++ id ≠ adminKey := by
    intro id heq
    have hchars := congrArg String.toList heq
    rw [String.toList_append] at hchars
    have hget := congrArg (fun cs => cs[5]?) hchars
    rw [List.getElem?_append_left (by decide)] at hget
    exact absurd hget (by decide)
  cases a with
  | user i =>
    cases b with
    | user j =>
      have hchars := congrArg String.toList (show userKeyStart ++ i = userKeyStart ++ j from h)
      rw [String.toList_append, String.toList_append] at hchars
      rw [String.toList_inj.1 (List.append_cancel_left hchars)]
    | admin => exact absurd h (hadmin i)
  | admin =>
    cases b with
    | user j => exact absurd h.symm (hadmin j)
    | admin => rfl

namespace Core

/-! ## The invariant -/

def Recorded (log : List Notice) (key : String) (score : Score) (event : Event) : Prop :=
  ∃ n ∈ log, n.subject.key = key ∧ n.event = event ∧ event.score = score

/-- What holds of the core of a service that has published a list of events, in their order. -/
structure Sound (c : Core) (log : List Notice) : Prop where
  clock : c.clock.Sound
  store : c.store.Sound
  ids : log.map (·.event.id) = (List.range c.issued).map c.ids
  rising : log.Pairwise fun m n => m.event.score < n.event.score
  pos : ∀ n ∈ log, 0 < n.event.score
  le_last : ∀ n ∈ log, n.event.score ≤ c.clock.last
  write : ∀ i w, c.writes i = some w → Recorded log w.key w.score w.event
  entry : ∀ k, ∀ e ∈ c.store.entries k, Recorded log k e.score e.event
  distinct : ∀ i j v w, c.writes i = some v → c.writes j = some w → v.score = w.score → i = j
  pending : ∀ i w, c.writes i = some w → w.phase.Holds → w.score ∈ c.clock.pending
  strict : ∀ k, (c.store.entries k).Pairwise fun a b => a.score < b.score
  unlanded : ∀ k, ∀ e ∈ c.store.entries k, ∀ i w, c.writes i = some w → w.phase = .appending →
    e.score ≠ w.score

/-- Nothing new is stamped or lands: writes go on, reservations end, and entries are lost. -/
structure Fades (c c' : Core) : Prop where
  ids : c'.ids = c.ids
  issued : c'.issued = c.issued
  store : c.store.Shrinks c'.store c.wall
  clock : c'.clock = c.clock ∨ ∃ id w, c.writes id = some w ∧ c'.clock = c.clock.release w.score ∧
    ∀ w', c'.writes id = some w' → ¬ w'.phase.Holds
  write : ∀ i w', c'.writes i = some w' → ∃ w, c.writes i = some w ∧
    w'.key = w.key ∧ w'.score = w.score ∧ w'.event = w.event ∧
    (w'.phase.Holds → w.phase.Holds) ∧ (w'.phase = .appending → w.phase = .appending)

variable {c c' : Core} {log : List Notice} {l : Option Notice} {d : Int}

theorem Fades.last (h : c.Fades c') : c'.clock.last = c.clock.last := by
  rcases h.clock with hc | ⟨id, w, -, hc, -⟩
  · rw [hc]
  · rw [hc, Clock.release_last]

theorem fades_of_same {st : Store} {slots : Slots} {wall : Score}
    (hst : c.store.Shrinks st c.wall) : c.Fades { c with store := st, slots, wall } where
  ids := rfl
  issued := rfl
  store := hst
  clock := .inl rfl
  write _ w hw := ⟨w, hw, rfl, rfl, rfl, id, id⟩

/-- What a write leaves behind: nothing, or itself in a later phase. There it holds a reservation
only if it held one before. -/
def Leaves (w : Write) : Option Write → Prop
  | none => True
  | some v => ∃ p, v = { w with phase := p } ∧ p ≠ .appending ∧ (p.Holds → w.phase.Holds)

def Idle : Option Write → Prop
  | none => True
  | some v => ¬ v.phase.Holds

theorem leaves_of_not_holds {w : Write} {p : WritePhase} (h : ¬ p.Holds) :
    Leaves w (some { w with phase := p }) := by
  refine ⟨p, rfl, ?_, fun hp => absurd hp h⟩
  rintro rfl
  exact h trivial

theorem fades_setWrite {id : Nat} {w : Write} {w' : Option Write} {st : Store} {clock : Clock}
    {slots : Slots} (hw : c.writes id = some w) (hw' : Leaves w w')
    (hst : c.store.Shrinks st c.wall)
    (hclock : clock = c.clock ∨ clock = c.clock.release w.score ∧ Idle w') :
    c.Fades ({ c with store := st, clock, slots }.setWrite id w') where
  ids := rfl
  issued := rfl
  store := hst
  clock := by
    refine hclock.imp_right fun ⟨hc, hidle⟩ => ⟨id, w, hw, hc, fun v hv => ?_⟩
    rcases writes_setWrite hv with ⟨-, rfl⟩ | ⟨hi, -⟩
    · exact hidle
    · exact absurd rfl hi
  write i v hv := by
    rcases writes_setWrite hv with ⟨rfl, rfl⟩ | ⟨-, hv⟩
    · obtain ⟨p, rfl, happ, hholds⟩ := hw'
      exact ⟨w, hw, rfl, rfl, rfl, hholds, fun hp => absurd hp happ⟩
    · exact ⟨v, hv, rfl, rfl, rfl, fun hp => hp, fun hp => hp⟩

theorem not_holds_released (r : Except StoreFault Unit) : ¬ (WritePhase.released r).Holds := by
  cases r <;> exact fun h => h

theorem not_holds_ending (r : Except StoreFault Unit) : ¬ (WritePhase.ending r).Holds :=
  fun h => h

theorem not_holds_finished (r : Except StoreFault Unit) : ¬ (WritePhase.finished r).Holds :=
  fun h => h

/-- **A step stamps an event, lands one, or only lets things fade.** -/
theorem Step.cases (h : c.store.Sound) (hstep : c.Step l d c') :
    (l = none ∧ c.Fades c') ∨
    (∃ id d, c.writes id = none ∧ l = some (c.notice d) ∧ c' = c.stamp id d) ∨
    (∃ id w, c.writes id = some w ∧ w.phase = .appending ∧ l = none ∧ c' = c.land id w) := by
  have hrefl := Store.Shrinks.refl c.store c.wall
  cases hstep with
  | idle => exact .inl ⟨rfl, fades_of_same hrefl⟩
  | stamp id d hfree => exact .inr (.inl ⟨id, d, hfree, rfl, rfl⟩)
  | land hw hp => exact .inr (.inr ⟨_, _, hw, hp, rfl, rfl⟩)
  | fail f hw hp =>
    refine .inl ⟨rfl, fades_setWrite hw ⟨_, rfl, nofun, fun _ => ?_⟩ hrefl (.inl rfl)⟩
    rw [hp]
    trivial
  | release hw hp =>
    exact .inl ⟨rfl, fades_setWrite hw (leaves_of_not_holds (not_holds_released _)) hrefl
      (.inr ⟨rfl, not_holds_released _⟩)⟩
  | trim hw hp =>
    exact .inl ⟨rfl, fades_setWrite hw (leaves_of_not_holds (not_holds_ending _))
      (Store.trim_shrinks c.store _ _ c.wall) (.inl rfl)⟩
  | skip hw hp =>
    exact .inl ⟨rfl, fades_setWrite hw (leaves_of_not_holds (not_holds_ending _)) hrefl
      (.inl rfl)⟩
  | finish hw hp =>
    exact .inl ⟨rfl, fades_setWrite hw (leaves_of_not_holds (not_holds_finished _)) hrefl
      (.inl rfl)⟩
  | abandon hw hb hp => exact .inl ⟨rfl, fades_setWrite hw trivial hrefl (.inr ⟨rfl, trivial⟩)⟩
  | forget hw hb hp => exact .inl ⟨rfl, fades_setWrite hw trivial hrefl (.inl rfl)⟩
  | sweep key => exact .inl ⟨rfl, fades_of_same (h.expire_shrinks key _ _)⟩
  | purge => exact .inl ⟨rfl, fades_of_same (h.purge_shrinks _)⟩
  | close => exact .inl ⟨rfl, fades_of_same hrefl⟩
  | pass micros => exact .inl ⟨rfl, fades_of_same hrefl⟩

/-! ## What a step preserves -/

theorem Recorded.append {key : String} {score : Score} {event : Event}
    (h : Recorded log key score event) (more : List Notice) :
    Recorded (log ++ more) key score event := by
  obtain ⟨n, hn, hrest⟩ := h
  exact ⟨n, List.mem_append_left more hn, hrest⟩

theorem Sound.fades (h : c.Sound log) (hf : c.Fades c') : c'.Sound log where
  clock := by
    rcases hf.clock with hc | ⟨id, w, -, hc, -⟩
    · rw [hc]
      exact h.clock
    · rw [hc]
      exact h.clock.release w.score
  store := h.store.shrinks hf.store
  ids := by rw [h.ids, hf.issued, hf.ids]
  rising := h.rising
  pos := h.pos
  le_last n hn := by
    rw [hf.last]
    exact h.le_last n hn
  write i w' hw' := by
    obtain ⟨w, hw, hkey, hscore, hevent, -, -⟩ := hf.write i w' hw'
    rw [hkey, hscore, hevent]
    exact h.write i w hw
  entry k e he := h.entry k e ((hf.store.suffix k).subset he)
  distinct i j v' w' hv' hw' heq := by
    obtain ⟨v, hv, -, hvscore, -⟩ := hf.write i v' hv'
    obtain ⟨w, hw, -, hwscore, -⟩ := hf.write j w' hw'
    exact h.distinct i j v w hv hw (by rw [← hvscore, ← hwscore, heq])
  pending i w' hw' hp := by
    obtain ⟨w, hw, -, hscore, -, hholds, -⟩ := hf.write i w' hw'
    have hpending := h.pending i w hw (hholds hp)
    rw [hscore]
    rcases hf.clock with hc | ⟨id, v, hv, hc, hidle⟩
    · rw [hc]
      exact hpending
    · -- The reservation that ends is another write's, so it has another score.
      have hne : w.score ≠ v.score := by
        intro heq
        have hi := h.distinct i id w v hw hv heq
        subst hi
        exact hidle w' hw' hp
      rw [hc]
      exact Clock.mem_pending_release.2 ⟨hpending, hne⟩
  strict k := (h.strict k).sublist (hf.store.suffix k).sublist
  unlanded k e he i w' hw' hp := by
    obtain ⟨w, hw, -, hscore, -, -, happ⟩ := hf.write i w' hw'
    rw [hscore]
    exact h.unlanded k e ((hf.store.suffix k).subset he) i w hw (happ hp)

theorem score_notice (h : 0 ≤ c.clock.last) (d : Draft) :
    (c.notice d).event.score = (c.clock.reserve c.wall).1 := by
  have hscore : (c.clock.reserve c.wall).1 =
      min (c.clock.candidate c.wall) Timestamp.latest.score := Clock.reserve_score h
  have hpos : 0 < c.clock.candidate c.wall := Clock.candidate_pos h
  have hlatest := Timestamp.latest_score
  have hmicros := Timestamp.score_ofMicros (m := (c.clock.reserve c.wall).1) (by lia)
  change (Timestamp.ofMicros (c.clock.reserve c.wall).1).score = _
  rw [hmicros]
  lia

theorem Sound.stamp (h : c.Sound log) {id : Nat} {d : Draft} (hfree : c.writes id = none)
    (hcal : (c.stamp id d).clock.last ≤ Timestamp.latest.score) :
    (c.stamp id d).Sound (log ++ [c.notice d]) := by
  have hcand : c.clock.candidate c.wall ≤ Timestamp.latest.score := hcal
  have hnew := Clock.last_lt_of_candidate_le hcand
  have hscore := Clock.reserve_score_of_le h.clock.last_nonneg hcand
  have hevent := score_notice h.clock.last_nonneg d
  have hlatest := Timestamp.latest_score
  have hold : ∀ key score event, Recorded log key score event → score ≤ c.clock.last := by
    rintro key score event ⟨n, hn, -, rfl, rfl⟩
    exact h.le_last n hn
  have hwrites : ∀ {i : Nat} {w : Write}, (c.stamp id d).writes i = some w →
      (i = id ∧ w = c.writeOf d) ∨ (i ≠ id ∧ c.writes i = some w) := fun hw =>
    (writes_setWrite hw).imp_left fun ⟨hi, hw⟩ => ⟨hi, (Option.some.inj hw).symm⟩
  refine ⟨h.clock.reserve c.wall, h.store, ?_, ?_, ?_, ?_, ?_, ?_, ?_, ?_, h.strict, ?_⟩
  · change _ = (List.range (c.issued + 1)).map c.ids
    rw [List.map_append, h.ids, List.range_succ, List.map_append]
    rfl
  · refine List.pairwise_append.2 ⟨h.rising, List.pairwise_singleton _ _, fun m hm n hn => ?_⟩
    rw [List.mem_singleton] at hn
    subst hn
    have := h.le_last m hm
    lia
  · intro n hn
    rcases List.mem_append.1 hn with hn | hn
    · exact h.pos n hn
    · rw [List.mem_singleton] at hn
      subst hn
      have := h.clock.last_nonneg
      lia
  · intro n hn
    change n.event.score ≤ c.clock.candidate c.wall
    rcases List.mem_append.1 hn with hn | hn
    · have := h.le_last n hn
      lia
    · rw [List.mem_singleton] at hn
      subst hn
      lia
  · intro i w hw
    rcases hwrites hw with ⟨-, rfl⟩ | ⟨-, hw⟩
    · exact ⟨c.notice d, by simp, rfl, rfl, hevent⟩
    · exact (h.write i w hw).append _
  · intro k e he
    exact (h.entry k e he).append _
  · intro i j v w hv hw heq
    rcases hwrites hv with ⟨rfl, rfl⟩ | ⟨hi, hvold⟩
    · rcases hwrites hw with ⟨rfl, -⟩ | ⟨hj, hwold⟩
      · rfl
      · have hle := hold _ _ _ (h.write j w hwold)
        have hv' : (c.writeOf d).score = (c.clock.reserve c.wall).1 := rfl
        lia
    · rcases hwrites hw with ⟨rfl, rfl⟩ | ⟨hj, hwold⟩
      · have hle := hold _ _ _ (h.write i v hvold)
        have hw' : (c.writeOf d).score = (c.clock.reserve c.wall).1 := rfl
        lia
      · exact h.distinct i j v w hvold hwold heq
  · intro i w hw hp
    rcases hwrites hw with ⟨-, rfl⟩ | ⟨-, hw⟩
    · exact Clock.mem_pending_reserve.2 (.inl rfl)
    · exact Clock.mem_pending_reserve.2 (.inr (h.pending i w hw hp))
  · intro k e he i w hw hp
    rcases hwrites hw with ⟨-, rfl⟩ | ⟨-, hw⟩
    · have hle := hold _ _ _ (h.entry k e he)
      have hw' : (c.writeOf d).score = (c.clock.reserve c.wall).1 := rfl
      lia
    · exact h.unlanded k e he i w hw hp

theorem entries_land {id : Nat} {w : Write} {k : String} {e : Entry}
    (he : e ∈ (c.land id w).store.entries k) :
    (k = w.key ∧ e = ⟨w.score, c.store.nextSequence, w.event⟩) ∨ e ∈ c.store.entries k := by
  simp only [Core.land, setWrite, Store.entries_append] at he
  split at he
  · next hk =>
    rcases Queue.mem_insertEntry.1 he with hnew | hold
    · exact .inl ⟨hk, hnew⟩
    · exact .inr (hk ▸ (c.store.liveEntries_suffix w.key c.wall).subset hold)
  · exact .inr he

theorem Sound.land (h : c.Sound log) {id : Nat} {w : Write} (hw : c.writes id = some w)
    (hp : w.phase = .appending) : (c.land id w).Sound log := by
  have hwrites : ∀ {i : Nat} {v : Write}, (c.land id w).writes i = some v →
      (i = id ∧ v = { w with phase := .releasing (.ok ()) }) ∨ (i ≠ id ∧ c.writes i = some v) :=
    fun hv => (writes_setWrite hv).imp_left fun ⟨hi, hv⟩ => ⟨hi, (Option.some.inj hv).symm⟩
  refine ⟨h.clock, h.store.append _ _ _ _, h.ids, h.rising, h.pos, h.le_last,
    ?_, ?_, ?_, ?_, ?_, ?_⟩
  · intro i v hv
    rcases hwrites hv with ⟨-, rfl⟩ | ⟨-, hv⟩
    · exact h.write id w hw
    · exact h.write i v hv
  · intro k e he
    rcases entries_land he with ⟨rfl, rfl⟩ | he
    · exact h.write id w hw
    · exact h.entry k e he
  · intro i j u v hu hv heq
    rcases hwrites hu with ⟨rfl, rfl⟩ | ⟨-, huold⟩
    · rcases hwrites hv with ⟨rfl, -⟩ | ⟨-, hvold⟩
      · rfl
      · exact h.distinct i j w v hw hvold heq
    · rcases hwrites hv with ⟨rfl, rfl⟩ | ⟨-, hvold⟩
      · exact h.distinct i j u w huold hw heq
      · exact h.distinct i j u v huold hvold heq
  · intro i v hv hholds
    rcases hwrites hv with ⟨-, rfl⟩ | ⟨-, hv⟩
    · exact h.pending id w hw (by rw [hp]; trivial)
    · exact h.pending i v hv hholds
  · intro k
    simp only [Core.land, setWrite, Store.entries_append]
    split
    · have hlive := c.store.liveEntries_suffix w.key c.wall
      exact Queue.insertEntry_rising ((h.strict w.key).sublist hlive.sublist) fun a ha =>
        h.unlanded w.key a (hlive.subset ha) id w hw hp
    · exact h.strict k
  · intro k e he i v hv hphase
    rcases hwrites hv with ⟨-, rfl⟩ | ⟨hi, hv⟩
    · cases hphase
    · -- A write that is still to land is another one than the write that has landed.
      rcases entries_land he with ⟨-, rfl⟩ | he
      · exact fun heq => hi (h.distinct i id v w hv hw heq.symm)
      · exact h.unlanded k e he i v hv hphase

theorem Sound.step (h : c.Sound log) (hstep : c.Step l d c')
    (hcal : c'.clock.last ≤ Timestamp.latest.score) : c'.Sound (log ++ l.toList) := by
  rcases hstep.cases h.store with ⟨rfl, hf⟩ | ⟨id, d, hfree, rfl, rfl⟩ | ⟨id, w, hw, hp, rfl, rfl⟩
  · rw [Option.toList_none, List.append_nil]
    exact h.fades hf
  · exact h.stamp hfree hcal
  · rw [Option.toList_none, List.append_nil]
    exact h.land hw hp

theorem Step.last_le (hstep : c.Step l d c')
    (hcal : c'.clock.last ≤ Timestamp.latest.score) : c.clock.last ≤ c'.clock.last := by
  cases hstep with
  | stamp id d hfree =>
    have := Clock.last_lt_of_candidate_le hcal
    change c.clock.last ≤ c.clock.candidate c.wall
    lia
  | _ => exact Int.le_refl _

end Core

namespace Service

variable {s : Service}

theorem sound_start? {settings : QueueSettings} {ids : Nat → Uuid} {wall : Score}
    (h : start? settings ids wall = some s) : s.core.Sound [] := by
  obtain ⟨slots, rfl⟩ := start?_eq_some h
  have hnone : ∀ i w, ({ settings, ids, slots, wall : Service }).core.writes i ≠ some w := by
    intro i w
    simp [core]
  have hempty : ∀ k e, e ∉ ({ settings, ids, slots, wall : Service }).core.store.entries k :=
    fun k e => List.not_mem_nil
  constructor
  case clock => exact Clock.sound_new
  case store => exact Store.sound_empty
  case ids => rfl
  case rising => exact List.Pairwise.nil
  case pos => exact fun n hn => absurd hn List.not_mem_nil
  case le_last => exact fun n hn => absurd hn List.not_mem_nil
  case write => exact fun i w hw => absurd hw (hnone i w)
  case entry => exact fun k e he => absurd he (hempty k e)
  case distinct => exact fun i j v w hv => absurd hv (hnone i v)
  case pending => exact fun i w hw => absurd hw (hnone i w)
  case strict => exact fun k => List.Pairwise.nil
  case unlanded => exact fun k e he => absurd he (hempty k e)

def log (s : Service) : List Move → List Notice
  | [] => []
  | m :: ms => (s.posted? m).toList ++ (s.move m).log ms

theorem log_append (s : Service) (ms ns : List Move) :
    s.log (ms ++ ns) = s.log ms ++ (s.run ms).log ns := by
  induction ms generalizing s with
  | nil => rfl
  | cons m ms ih => simp [log, ih]

theorem last_le_run (h : s.Linked) {ms : List Move}
    (hcal : (s.run ms).clock.last ≤ Timestamp.latest.score) :
    s.clock.last ≤ (s.run ms).clock.last := by
  induction ms generalizing s with
  | nil => exact Int.le_refl _
  | cons m ms ih =>
    have hrest := ih (h.move m) hcal
    rw [run_cons] at hcal ⊢
    have hfirst := (step_move h m).last_le (Int.le_trans hrest hcal)
    exact Int.le_trans hfirst hrest

/-- **What holds of a core holds after every run**, as long as the calendar reaches. -/
theorem sound_run {log : List Notice} (h : s.core.Sound log) (hl : s.Linked) {ms : List Move}
    (hcal : (s.run ms).clock.last ≤ Timestamp.latest.score) :
    (s.run ms).core.Sound (log ++ s.log ms) := by
  induction ms generalizing s log with
  | nil =>
    rw [Service.log, List.append_nil]
    exact h
  | cons m ms ih =>
    have hmid : (s.move m).clock.last ≤ ((s.move m).run ms).clock.last :=
      last_le_run (hl.move m) hcal
    have hstep := h.step (step_move hl m) (Int.le_trans hmid hcal)
    rw [Service.log, ← List.append_assoc]
    exact ih hstep (hl.move m) hcal

end Service

end NotificationQueue
