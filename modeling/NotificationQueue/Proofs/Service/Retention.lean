import NotificationQueue.Proofs.Service.Changes
import NotificationQueue.Proofs.Service.Horizon
import NotificationQueue.Proofs.Store.Retention

/-!
How long a service keeps what it has stored. Sweeps go by the score of an entry and deadlines by the
landing of its append; other writes, polls and purges do both at any time. All writes carry the
retention of the settings, so none of them brings a deadline forward.
-/
namespace NotificationQueue
set_option autoImplicit false

namespace Core

variable {c c' : Core} {l : Option Notice} {d : Int}

def Lasting (c : Core) : Prop :=
  ∀ i w, c.writes i = some w → w.event.ttl = c.settings.retention.seconds

theorem Lasting.step (h : c.Lasting) (hs : c.store.Sound) (hstep : c.Step l d c') :
    c'.Lasting := by
  intro i v hv
  rw [hstep.settings]
  rcases hstep.cases hs with ⟨-, hf⟩ | ⟨id, d, -, -, rfl⟩ | ⟨id, w, hw, -, -, rfl⟩
  · obtain ⟨w, hw, -, -, hevent, -⟩ := hf.write i v hv
    rw [hevent]
    exact h i w hw
  · rcases writes_setWrite hv with ⟨-, hnew⟩ | ⟨-, hold⟩
    · cases hnew
      rfl
    · exact h i v hold
  · rcases writes_setWrite hv with ⟨-, hlanded⟩ | ⟨-, hold⟩
    · cases hlanded
      exact h id w hw
    · exact h i v hold

end Core

namespace Service

variable {s : Service} {key : String} {e : Entry} {start : Score} {n : Nat}

theorem Reachable.lasting (h : s.Reachable) : s.core.Lasting := by
  refine h.invariant (fun hstart => ?_) fun hs hc => hc.step hs.store
  obtain ⟨slots, rfl⟩ := start?_eq_some hstart
  intro i w hw
  simp [core] at hw

/-- A trim of a run cuts an entry off that readers of a key could see. -/
def Cuts (s : Service) (ms : List Move) (key : String) (e : Entry) : Prop :=
  ∃ before m after, ms = before ++ m :: after ∧
    (s.run before).change? m = some (.trim key s.settings.pageSize) ∧
    e ∈ (s.run before).store.liveEntries key (s.run before).wall ∧
    e ∉ (s.run (before ++ [m])).store.entries key

theorem Cuts.prepend {ms : List Move} (before : List Move) (h : (s.run before).Cuts ms key e) :
    s.Cuts (before ++ ms) key e := by
  obtain ⟨more, m, after, rfl, htrim, hlive, hgone⟩ := h
  rw [settings_run, ← run_append] at htrim
  rw [← run_append] at hlive hgone
  refine ⟨before ++ more, m, after, (List.append_assoc before more _).symm, htrim, hlive, ?_⟩
  rwa [List.append_assoc]

theorem Cuts.extend {ms : List Move} (h : s.Cuts ms key e) (more : List Move) :
    s.Cuts (ms ++ more) key e := by
  obtain ⟨before, m, after, rfl, hrest⟩ := h
  exact ⟨before, m, after ++ more, List.append_assoc before (m :: after) more, hrest⟩

/-! ## What is kept -/

/-- A reading of the wall clock, in the calendar as all are, at which an entry that landed at
another one is neither past its deadline nor below the cutoff. -/
structure Within (n : Nat) (start score wall : Score) : Prop where
  calendar : wall ≤ Timestamp.latest.score
  deadline : wall < start + n * 1000000
  cutoff : wall ≤ score + n * 1000000

theorem Within.mono {score wall w : Score} (h : Within n start score wall) (hw : w ≤ wall) :
    Within n start score w where
  calendar := Int.le_trans hw h.calendar
  deadline := Int.lt_of_le_of_lt hw h.deadline
  cutoff := Int.le_trans hw h.cutoff

theorem Reachable.ttl_of_change? (hs : s.Reachable) (hret : s.settings.retention.seconds = n)
    {m : Move} {score : Score} {event : Event}
    (hc : s.change? m = some (.append key score event)) : event.ttl = n := by
  rcases change?_cases hc with ⟨i, w, -, hw, -, hc⟩ | ⟨k, hc⟩ | ⟨k, hc⟩ | hc <;> cases hc
  have hlasting := hs.lasting i w (core_writes hw)
  exact hlasting.trans hret

theorem spares_change? (hs : s.Reachable) (hret : s.settings.retention.seconds = n)
    (h0 : 0 ≤ e.score) (hstart : start ≤ s.wall) (hwithin : Within n start e.score s.wall)
    {m : Move} {c : Store.Call} (hc : s.change? m = some c) :
    c.Spares s.wall key e ((Instant.ofScore start).plusSeconds n) := by
  rcases change?_cases hc with ⟨i, w, -, hw, -, rfl⟩ | ⟨k, rfl⟩ | ⟨k, rfl⟩ | rfl
  · have httl := hs.ttl_of_change? hret hc
    intro _
    rw [httl]
    exact Instant.plusSeconds_mono (by unfold Instant.ofScore; lia) n
  · trivial
  · intro _
    refine cutoff_le h0 hwithin.calendar ?_
    rw [hret]
    exact hwithin.cutoff
  · trivial

theorem keeps_landed (hs : s.Reachable) (hret : s.settings.retention.seconds = n)
    {landing : Move} {score : Score} {event : Event}
    (hland : s.change? landing = some (.append key score event)) :
    (s.move landing).store.Keeps key ⟨score, s.store.nextSequence, event⟩
      ((Instant.ofScore s.wall).plusSeconds n) := by
  have hstore := (s.changed_move landing).store
  rw [hland] at hstore
  have hlanded : (s.move landing).store = s.store.append key score event s.wall := hstore
  have httl := hs.ttl_of_change? hret hland
  rw [hlanded, ← httl]
  exact s.store.keeps_append key score event s.wall

theorem keeps_move (hs : s.Reachable) (hret : s.settings.retention.seconds = n)
    (h0 : 0 ≤ e.score) (hstart : start ≤ s.wall) (hwithin : Within n start e.score s.wall)
    (hkeeps : s.store.Keeps key e ((Instant.ofScore start).plusSeconds n)) (m : Move) :
    (s.move m).store.Keeps key e ((Instant.ofScore start).plusSeconds n) ∨ s.Cuts [m] key e := by
  have hstore := (s.changed_move m).store
  cases hc : s.change? m with
  | none =>
    rw [hc] at hstore
    have hsame : (s.move m).store = s.store := hstore
    rw [hsame]
    exact .inl hkeeps
  | some c =>
    rw [hc] at hstore
    have hcalled : (s.move m).store = (s.store.call s.wall c).2 := hstore
    have hwall := Instant.ofScore_lt_plusSeconds hwithin.calendar hwithin.deadline
    have hspares : c.Spares s.wall key e ((Instant.ofScore start).plusSeconds n) :=
      spares_change? hs hret h0 hstart hwithin hc
    rw [hcalled]
    refine (hkeeps.call hs.stamped.store hwall hspares).imp_right ?_
    rintro ⟨k, rfl, hgone⟩
    obtain rfl := keep_of_change? hc
    rw [← hcalled] at hgone
    exact ⟨[], m, [], rfl, hc, hkeeps.mem_liveEntries hwall, hgone⟩

theorem keeps_run (hs : s.Reachable) (hret : s.settings.retention.seconds = n)
    (h0 : 0 ≤ e.score) (hstart : start ≤ s.wall) {ms : List Move} (hms : ∀ m ∈ ms, m.IsForward)
    (hwithin : Within n start e.score (s.run ms).wall)
    (hkeeps : s.store.Keeps key e ((Instant.ofScore start).plusSeconds n)) :
    (s.run ms).store.Keeps key e ((Instant.ofScore start).plusSeconds n) ∨ s.Cuts ms key e := by
  -- The deadline stays that of the landing: `start` is fixed while the wall clock goes on.
  induction ms generalizing s with
  | nil => exact .inl hkeeps
  | cons m ms ih =>
    have hms' : ∀ m' ∈ ms, m'.IsForward := fun m' hm' => hms m' (List.mem_cons_of_mem m hm')
    have hfirst : s.wall ≤ (s.move m).wall := wall_le_move hs.linked (hms m List.mem_cons_self)
    have hlast : s.wall ≤ ((s.move m).run ms).wall := wall_le_run hs.linked hms
    have hnow : Within n start e.score s.wall := hwithin.mono hlast
    rcases keeps_move hs hret h0 hstart hnow hkeeps m with hkeeps' | hcut
    · have hret' : (s.move m).settings.retention.seconds = n := by
        rw [(s.changed_move m).settings, hret]
      have hstart' : start ≤ (s.move m).wall := Int.le_trans hstart hfirst
      have hrest := ih (hs.run [m]) hret' hstart' hms' hwithin hkeeps'
      exact hrest.imp_right (Cuts.prepend [m])
    · exact .inr (hcut.extend ms)

theorem keeps_of_landed (hs : s.Reachable) (hret : s.settings.retention.seconds = n)
    {landing : Move} {score : Score} {event : Event}
    (hland : s.change? landing = some (.append key score event)) {ms : List Move}
    (hms : ∀ m ∈ ms, m.IsForward)
    (hwithin : Within n s.wall score ((s.move landing).run ms).wall) :
    ((s.move landing).run ms).store.Keeps key ⟨score, s.store.nextSequence, event⟩
        ((Instant.ofScore s.wall).plusSeconds n) ∨
      (s.move landing).Cuts ms key ⟨score, s.store.nextSequence, event⟩ := by
  have hkeeps := keeps_landed hs hret hland
  rcases change?_cases hland with ⟨i, w, rfl, hw, hp, hc⟩ | ⟨k, hc⟩ | ⟨k, hc⟩ | hc <;> cases hc
  have h0 : 0 ≤ w.score := Int.le_of_lt (hs.stamped.write_pos i w (core_writes hw))
  have hwall : (s.move (.advance i .done)).wall = s.wall :=
    (step_move hs.linked (.advance i .done)).wall.trans (Int.add_zero _)
  have hret' : (s.move (.advance i .done)).settings.retention.seconds = n := by
    rw [(s.changed_move _).settings, hret]
  exact keeps_run (hs.run [.advance i .done]) hret' h0 (Int.le_of_eq hwall.symm) hms hwithin hkeeps

/-- **A stored event can be read until a trim cuts it off**: from the landing of its append, and as
long as the wall clock reads less than the retention after the landing and no more than the
retention after its score, no sweep, purge or later append takes it out of its queue or hides it,
whatever else goes on. -/
theorem kept_until_trimmed {s : Service} (hs : s.Reachable) {n : Nat}
    (hret : s.settings.retention = .ofSeconds n) {landing : Move} {key : String} {score : Score}
    {event : Event} (hland : s.change? landing = some (.append key score event)) {ms : List Move}
    (hms : ∀ m ∈ ms, m.IsForward)
    (hwithin : Within n s.wall score ((s.move landing).run ms).wall) :
    let t := (s.move landing).run ms
    let e : Entry := ⟨score, s.store.nextSequence, event⟩
    e ∈ t.store.liveEntries key t.wall ∨ (s.move landing).Cuts ms key e := by
  intro t e
  have hdue := Instant.ofScore_lt_plusSeconds hwithin.calendar hwithin.deadline
  have hseconds : s.settings.retention.seconds = n := by rw [hret, Duration.seconds_ofSeconds]
  exact (keeps_of_landed hs hseconds hland hms hwithin).imp_left fun hkept =>
    hkept.mem_liveEntries hdue

def placing : Service :=
  (sample {} 1000000).run [.publish (.newOrder "a" "x" "1")]

def busy : List Move :=
  [.elapse 299000, .publish (.newOrder "b" "x" "1"), .advance 1 .done,
    .poll ⟨.admin, none, none, false⟩ false, .advance 2 .done, .advance 2 .done,
    .purgeEvery (.ofSeconds 1), .advance 4 .done, .elapse 999, .advance 3 .done, .advance 4 .done,
    .advance 4 .done]

/-- An order is still there a millisecond before its retention is over, after an append, a sweep and
a purge. -/
theorem kept_until_trimmed_busy :
    ∃ event, placing.change? (.advance 0 .done) = some (.append Subject.admin.key 1000000 event) ∧
      let s := placing.move (.advance 0 .done)
      let t := s.run busy
      let e : Entry := ⟨1000000, 0, event⟩
      (s.changes busy).length = 3 ∧ t.wall = 1000000 + 299999000 ∧
        (e ∈ t.store.liveEntries Subject.admin.key t.wall ∨ s.Cuts busy Subject.admin.key e) := by
  refine ⟨_, rfl, by decide +kernel, by decide +kernel, ?_⟩
  have hs : placing.Reachable := reachable_sample 1000000 _
  have hwall : ((placing.move (.advance 0 .done)).run busy).wall = 300999000 := by decide +kernel
  refine kept_until_trimmed (n := 300) hs rfl rfl (by decide) ⟨?_, ?_, ?_⟩
  · rw [hwall]
    decide
  · rw [hwall]
    decide
  · rw [hwall]
    decide

end Service

end NotificationQueue
