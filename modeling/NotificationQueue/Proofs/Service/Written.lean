import NotificationQueue.Proofs.Delivery.Cursor
import NotificationQueue.Proofs.Service.Conservation
import NotificationQueue.Proofs.Service.Polls
import NotificationQueue.Proofs.Service.Prompt
import NotificationQueue.Proofs.Service.Retention
import NotificationQueue.Proofs.Service.Writes

/-!
What a write leaves in its queue while no other write is pending and the wall clock stands still.
Its entry is the newest of all, so trims and sweeps pass it by. It is retained for a number of whole
seconds: where that is none, the deadline of the queue has come as soon as it is set.
-/
namespace NotificationQueue
set_option autoImplicit false

/-! ## Writes alone -/

def Core.Alone (c : Core) (i : Nat) : Prop :=
  ∀ j w, c.writes j = some w → w.phase.Holds → j = i

theorem Core.Alone.step {c c' : Core} {l : Option Notice} {d : Int} {i : Nat} {w : Write}
    (h : c.Alone i) (h' : c'.Alone i) (hw : c.writes i = some w) (hs : c.store.Sound)
    (hstep : c.Step l d c') : c.Fades c' ∨ w.phase = .appending ∧ c' = c.land i w := by
  rcases hstep.cases hs with ⟨-, hf⟩ | ⟨id, d, hfree, -, rfl⟩ | ⟨id, v, hv, hp, -, rfl⟩
  · exact .inl hf
  · obtain rfl : id = i := h' id _ (if_pos rfl) trivial
    rw [hfree] at hw
    cases hw
  · obtain rfl : id = i := h id v hv (hp ▸ trivial)
    obtain rfl : v = w := Option.some.inj (hv.symm.trans hw)
    exact .inr ⟨hp, rfl⟩

def WritePhase.Stored : WritePhase → Prop
  | .appending => False
  | .trimming => True
  | .releasing result | .ending result | .finished result => result = .ok ()

theorem WritePhase.stored_of_next {p : WritePhase} {a : Answer} (h : (p.next a).Stored) :
    p.Stored ∨ (p = .appending ∧ a = .done) := by
  cases p with
  | appending =>
    cases a with
    | done => exact .inr ⟨rfl, rfl⟩
    | waiting | failed => cases h
  | trimming => exact .inl trivial
  | releasing result =>
    cases result with
    | ok u => exact .inl rfl
    | error f => cases h
  | ending result | finished result => exact .inl h

namespace Service

variable {s t : Service} {key : String} {e : Entry} {i : Nat} {w : Write}

/-! ## The newest entry -/

/-- An entry is the last that has landed, and its score the last that was given, at the present
reading of the wall clock or ahead of it. Its queue keeps it for the whole seconds of the retention,
and cannot be read where there are none. -/
structure Newest (s : Service) (key : String) (e : Entry) : Prop where
  number : s.store.nextSequence = e.sequence + 1
  score : e.score = min s.clock.last Timestamp.latest.score
  present : s.wall ≤ e.score
  kept : 0 < s.settings.retention.seconds → s.store.Keeps key e
    ((Instant.ofScore s.wall).plusSeconds s.settings.retention.seconds)
  lost : s.settings.retention.seconds = 0 → s.store.liveEntries key s.wall = []

theorem wall_move_of_micros (hl : s.Linked) {m : Move} (hm : m.micros = 0) :
    (s.move m).wall = s.wall := by
  have hwall := (step_move hl m).wall
  rw [hm] at hwall
  exact hwall.trans (Int.add_zero _)

namespace Newest

theorem not_precedes (h : s.Newest key e) (hs : s.Reachable) {k : String} {x : Entry}
    (hx : x ∈ s.store.entries k) : ¬ e.Precedes x := by
  obtain ⟨-, hlast, hlatest⟩ := hs.stamped.entry k x hx
  have hlast' : x.score ≤ s.clock.last := hlast
  have hnumber := hs.stamped.store.numbered k x hx
  have hnext := h.number
  have hscore := h.score
  have hnext' : s.core.store.nextSequence = e.sequence + 1 := hnext
  unfold Entry.Precedes
  lia

theorem within (h : s.Newest key e) (hwhole : 0 < s.settings.retention.seconds) :
    Within s.settings.retention.seconds s.wall e.score s.wall where
  calendar := by
    have hscore := h.score
    have hpresent := h.present
    lia
  deadline := by lia
  cutoff := by
    have hpresent := h.present
    lia

theorem score_nonneg (h : s.Newest key e) (hs : s.Reachable) : 0 ≤ e.score := by
  have hlast : 0 ≤ s.clock.last := hs.stamped.clock.last_nonneg
  have hscore := h.score
  rw [Timestamp.latest_score] at hscore
  lia

theorem not_cut (h : s.Newest key e) (hs : s.Reachable) (hpage : 0 < s.settings.pageSize)
    (m : Move) : ¬ s.Cuts [m] key e := by
  rintro ⟨before, m', after, hsplit, htrim, hlive, hgone⟩
  obtain ⟨rfl, rfl, rfl⟩ : before = [] ∧ m' = m ∧ after = [] := by
    cases before with
    | nil =>
      cases hsplit
      exact ⟨rfl, rfl, rfl⟩
    | cons x before => simp at hsplit
  have hstored : e ∈ s.store.entries key := (s.store.liveEntries_suffix _ _).subset hlive
  have hgone' : e ∉ (s.move m').store.entries key := hgone
  rcases entries_move hs.stamped.store m' key with
    ⟨j, v, rfl, hv, hp, -, -⟩ | ⟨-, hentries⟩ | ⟨hne, -⟩
  · have happend : s.change? (.advance j .done) = some (.append v.key v.score v.event) := by
      simp [change?, hv, Task.change?, hp]
    have htrim' : s.change? (.advance j .done) = some (.trim key s.settings.pageSize) := htrim
    rw [happend] at htrim'
    cases htrim'
  · -- A trim keeps a page of the newest entries, and none is newer than this one.
    rw [hentries] at hgone'
    have hmany := Queue.le_countP_of_not_mem_newest (hs.stamped.store.sorted key) hstored hgone'
    have hnone : (s.store.entries key).countP (fun x => e.Precedes x) = 0 :=
      List.countP_eq_zero.2 fun x hx => by simpa using h.not_precedes hs hx
    have hnone' : (s.core.store.entries key).countP (fun x => e.Precedes x) = 0 := hnone
    omega
  · exact hne htrim

/-- **The newest entry stays so**, while nothing else lands and the wall clock stands still. -/
theorem move (h : s.Newest key e) (hs : s.Reachable) (hpage : 0 < s.settings.pageSize) {m : Move}
    (hm : m.micros = 0) (hfades : s.core.Fades (s.move m).core) : (s.move m).Newest key e := by
  have hwall := wall_move_of_micros hs.linked hm
  have hsettings := (s.changed_move m).settings
  have hlast : (s.move m).clock.last = s.clock.last := hfades.last
  constructor
  case number => exact hfades.store.nextSequence.trans h.number
  case score => rw [hlast, h.score]
  case present =>
    rw [hwall]
    exact h.present
  case kept =>
    rw [hsettings, hwall]
    intro hwhole
    exact (keeps_move hs rfl (h.score_nonneg hs) (Int.le_refl _) (h.within hwhole) (h.kept hwhole)
      m).resolve_right (h.not_cut hs hpage m)
  case lost =>
    rw [hsettings]
    intro hnone
    have hsuffix := hfades.live (Int.le_of_eq hwall.symm) key
    have hempty : s.core.store.liveEntries key s.core.wall = [] := h.lost hnone
    rw [hempty] at hsuffix
    exact List.suffix_nil.1 hsuffix

end Newest

theorem newest_of_landed (hs : s.Reachable) (hw : s.tasks[i]? = some (.write w))
    (hp : w.phase = .appending) (hscore : w.score = min s.clock.last Timestamp.latest.score)
    (hpresent : s.wall ≤ w.score) :
    (s.move (.advance i .done)).Newest w.key ⟨w.score, s.store.nextSequence, w.event⟩ := by
  have hland : s.change? (.advance i .done) = some (.append w.key w.score w.event) := by
    simp [change?, hw, Task.change?, hp]
  have hstore : (s.move (.advance i .done)).store =
      s.store.append w.key w.score w.event s.wall := by
    have hcalled := (s.changed_move (.advance i .done)).store
    rw [hland] at hcalled
    exact hcalled
  have hclock : (s.move (.advance i .done)).clock = s.clock := by
    simp only [Service.move, advance, hw, advanceWrite, hp]
    rfl
  have hwall : (s.move (.advance i .done)).wall = s.wall := wall_move_of_micros hs.linked rfl
  have hsettings := (s.changed_move (.advance i .done)).settings
  have httl : w.event.ttl = s.settings.retention.seconds := hs.lasting i w (core_writes hw)
  constructor
  case number =>
    rw [hstore]
    rfl
  case score => rw [hclock, hscore]
  case present =>
    rw [hwall]
    exact hpresent
  case kept =>
    rw [hsettings, hwall]
    exact fun _ => keeps_landed hs rfl hland
  case lost =>
    -- The deadline of the queue is the reading of the clock at which the entry lands.
    rw [hsettings, hstore, hwall]
    intro hnone
    have hcal : s.wall ≤ Timestamp.latest.score := by lia
    have hdue : (Instant.ofScore s.wall).plusSeconds w.event.ttl = Instant.ofScore s.wall := by
      rw [Timestamp.latest_score] at hcal
      rw [httl, hnone]
      unfold Instant.plusSeconds Instant.ofScore
      rw [Instant.latest_eq]
      dsimp only
      lia
    unfold Store.liveEntries Store.live?
    rw [Store.queue?_append, if_pos rfl, hdue]
    simp [Option.filter, Queue.isExpired]

/-! ## A write carried out -/

/-- A task carries out a write that has been given the last score, at the present reading of the
wall clock or ahead of it. Once its append has succeeded its entry is the newest. -/
structure Carries (s : Service) (i : Nat) (w : Write) : Prop where
  score : w.score = min s.clock.last Timestamp.latest.score
  present : s.wall ≤ w.score
  task : ∃ p, s.tasks[i]? = some (.write { w with phase := p }) ∧
    (p.Stored → ∃ sequence, s.Newest w.key ⟨w.score, sequence, w.event⟩)

theorem Carries.move (h : s.Carries i w) (hs : s.Reachable) (hpage : 0 < s.settings.pageSize)
    {m : Move} (hm : m.micros = 0) (hdrop : w.background = true ∨ m ≠ .drop i)
    (halone : s.core.Alone i) (halone' : (s.move m).core.Alone i) : (s.move m).Carries i w := by
  obtain ⟨hscore, hpresent, p, hw, hstored⟩ := h
  have hwall := wall_move_of_micros hs.linked hm
  have hnext := move_write hs.linked hw hdrop
  have hstep := halone.step halone' (core_writes hw) hs.stamped.store (step_move hs.linked m)
  have hlast : (s.move m).clock.last = s.clock.last := by
    rcases hstep with hfades | ⟨-, hland⟩
    · exact hfades.last
    · exact congrArg (fun c : Core => c.clock.last) hland
  have hkeeps : p.Stored → ∃ sequence, (s.move m).Newest w.key ⟨w.score, sequence, w.event⟩ := by
    intro hp
    obtain ⟨sequence, hnewest⟩ := hstored hp
    rcases hstep with hfades | ⟨happending, -⟩
    · exact ⟨sequence, hnewest.move hs hpage hm hfades⟩
    · have hphase : p = .appending := happending
      rw [hphase] at hp
      exact hp.elim
  refine ⟨by rw [hlast, hscore], by rw [hwall]; exact hpresent, _, hnext, ?_⟩
  -- A write comes to be stored by its own append only.
  cases hturn : m.turn? i with
  | none => exact hkeeps
  | some a =>
    intro hp
    rcases WritePhase.stored_of_next hp with hp | ⟨rfl, rfl⟩
    · exact hkeeps hp
    · obtain rfl := Move.turn?_eq_some.1 hturn
      exact ⟨_, newest_of_landed (w := { w with phase := .appending }) hs hw rfl hscore hpresent⟩

theorem Carries.run (h : s.Carries i w) (hs : s.Reachable) (hpage : 0 < s.settings.pageSize)
    {ms : List Move} (hms : ∀ m ∈ ms, m.micros = 0) (hdrop : w.background = true ∨ .drop i ∉ ms)
    (halone : ∀ before, before <+: ms → (s.run before).core.Alone i) : (s.run ms).Carries i w := by
  induction ms generalizing s with
  | nil => exact h
  | cons m ms ih =>
    have hfirst := h.move hs hpage (hms m List.mem_cons_self)
      (hdrop.imp_right fun hmem heq => hmem (heq ▸ List.mem_cons_self))
      (halone [] List.nil_prefix) (halone [m] (List.cons_prefix_cons.2 ⟨rfl, List.nil_prefix⟩))
    refine ih hfirst (hs.run [m]) ?_ (fun m' hm' => hms m' (List.mem_cons_of_mem m hm'))
      (hdrop.imp_right fun hmem h => hmem (List.mem_cons_of_mem m h))
      fun before hbefore => halone (m :: before) (List.cons_prefix_cons.2 ⟨rfl, hbefore⟩)
    rw [(s.changed_move m).settings]
    exact hpage

/-! ## Publishes told to be written -/

variable {r : PublishRequest} {p : Publication} {n : Notice} {ms : List Move}

/-- In a run behind its publish a caller has been told that the event is written. The wall clock has
stood still, and no other write was pending. -/
structure WrittenAlone (t : Service) (p : Publication) (ms : List Move) : Prop where
  still : ∀ m ∈ ms, m.micros = 0
  alone : ∀ before, before <+: ms → (t.run before).core.Alone p.task
  told : (t.run ms).publishResult? p = some (.ok .written)

theorem Reachable.publish (hs : s.Reachable) (hp : s.publish r = .ok (t, p)) : t.Reachable := by
  obtain ⟨rfl, -⟩ := carried_of_publish hs hp
  exact hs.run [.publish r]

theorem settings_publish (hs : s.Reachable) (hp : s.publish r = .ok (t, p)) :
    t.settings = s.settings := by
  obtain ⟨rfl, -⟩ := carried_of_publish hs hp
  exact (s.changed_move _).settings

theorem of_told (h : t.publishResult? p = some (.ok .written)) : p.delivery = .written ∧
    ∃ w, t.tasks[p.task]? = some (.write w) ∧ w.phase = .finished (.ok ()) := by
  unfold publishResult? at h
  split at h
  · cases h
  · next w hdelivery hw =>
    split at h
    · next hphase => exact ⟨hdelivery, w, hw, hphase⟩
    · cases h
    · cases h
  · cases h

theorem run_gone (h : s.tasks[i]? = some .gone) (ms : List Move) :
    (s.run ms).tasks[i]? = some .gone := by
  induction ms generalizing s with
  | nil => exact h
  | cons m ms ih => exact ih (gone_move h m)

theorem drop_not_mem (hl : s.Linked) (hw : s.tasks[i]? = some (.write w))
    (hback : w.background = false) {v : Write} (hv : (s.run ms).tasks[i]? = some (.write v)) :
    .drop i ∉ ms := by
  induction ms generalizing s w with
  | nil => exact List.not_mem_nil
  | cons m ms ih =>
    have hm : m ≠ .drop i := by
      rintro rfl
      have hgone : (s.move (.drop i)).tasks[i]? = some .gone := by
        simp only [move, drop, hw, hback, Bool.false_eq_true, if_false]
        split <;> exact setTask_of_getElem? hw _
      rw [run_cons, run_gone hgone] at hv
      cases hv
    have hrest := ih (hl.move m) (move_write hl hw (.inr hm)) hback hv
    exact fun hmem => (List.mem_cons.1 hmem).elim (fun heq => hm heq.symm) hrest

theorem carries_of_publish (hs : s.Reachable) (hcal : s.wall ≤ Timestamp.latest.score)
    (hp : s.publish r = .ok (t, p)) (hn : s.posted? (.publish r) = some n) :
    ∃ w : Write, t.Carries p.task w ∧ w.key = n.subject.key ∧ w.score = n.event.score ∧
      w.event = n.event ∧ (w.background = true → p.delivery = .dispatched) := by
  rw [posted?] at hn
  cases hd : r.draft s.wall with
  | error f =>
    rw [hd] at hn
    cases hn
  | ok d =>
    rw [hd] at hn
    obtain rfl : s.notice d = n := Option.some.inj hn
    rw [publish, hd] at hp
    have hpair : s.submit d = (t, p) := Except.ok.inj hp
    obtain rfl : (s.submit d).1 = t := congrArg Prod.fst hpair
    obtain rfl : (s.submit d).2 = p := congrArg Prod.snd hpair
    have h0 : 0 ≤ s.clock.last := hs.stamped.clock.last_nonneg
    have hscore : (s.core.writeOf d).score =
        min (s.clock.candidate s.wall) Timestamp.latest.score := Clock.reserve_score h0
    have hcore := core_submit s d
    have hlast : (s.submit d).1.clock.last = s.clock.candidate s.wall :=
      congrArg (fun c : Core => c.clock.last) hcore
    have hwall : (s.submit d).1.wall = s.wall := congrArg Core.wall hcore
    have hnotice : (s.core.notice d).event.score = (s.core.writeOf d).score :=
      Core.score_notice h0 d
    refine ⟨s.core.writeOf d, ⟨by rw [hlast, hscore], ?_, .appending, ?_, False.elim⟩, rfl,
      hnotice.symm, rfl, fun hback => ?_⟩
    · rw [hwall, hscore]
      exact Int.le_min.2 ⟨Clock.wall_le_candidate, hcal⟩
    · rw [submit_snd]
      exact submit_task s d
    · have hfree : s.slots.acquire?.isSome = true := hback
      rw [submit_snd, hfree]
      rfl

/-- **An event that is written alone is the newest, and nothing is pending behind it.** -/
theorem newest_of_written (hs : s.Reachable) (hpage : 0 < s.settings.pageSize)
    (hcal : s.wall ≤ Timestamp.latest.score) (hp : s.publish r = .ok (t, p))
    (hn : s.posted? (.publish r) = some n) (h : t.WrittenAlone p ms) :
    (t.run ms).clock.pending = [] ∧
      ∃ sequence, (t.run ms).Newest n.subject.key ⟨n.event.score, sequence, n.event⟩ := by
  obtain ⟨w, hcarries, hkey, hscore, hevent, hback⟩ := carries_of_publish hs hcal hp hn
  obtain ⟨htold, v, hv, hphase⟩ := of_told h.told
  have ht : t.Reachable := hs.publish hp
  have hsettings : t.settings = s.settings := settings_publish hs hp
  have hback' : w.background = false := Bool.eq_false_iff.2 fun hb => by
    rw [hback hb] at htold
    cases htold
  have hdrop : .drop p.task ∉ ms := by
    obtain ⟨-, -, q, hw, -⟩ := hcarries
    exact drop_not_mem ht.linked hw hback' hv
  obtain ⟨-, -, q, hw, hstored⟩ :=
    hcarries.run ht (by rw [hsettings]; exact hpage) h.still (.inr hdrop) h.alone
  obtain rfl : v = { w with phase := q } := Task.write.inj (Option.some.inj (hv.symm.trans hw))
  obtain rfl : q = .finished (.ok ()) := hphase
  refine ⟨List.eq_nil_iff_forall_not_mem.2 fun x hx => ?_, ?_⟩
  · obtain ⟨j, u, hu, hholds, -⟩ := (ht.run ms).accounted x hx
    obtain rfl := h.alone ms (List.prefix_refl ms) j u hu hholds
    obtain rfl : _ = u := Option.some.inj ((core_writes hv).symm.trans hu)
    exact hholds
  · rw [← hkey, ← hscore, ← hevent]
    exact hstored rfl

end Service

end NotificationQueue
