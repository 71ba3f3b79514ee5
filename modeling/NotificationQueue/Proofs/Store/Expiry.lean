import NotificationQueue.Proofs.Store.Retention

/-!
The arithmetic of expiry. A deadline is the exact sum of a reading of the wall clock and a
retention, or the latest instant if that comes first; a cutoff is their exact difference as long as
64 bits hold both it and the retention. Until the deadline that its append has set, an entry scored
at the time of the append is not below the cutoff of a sweep.
-/
namespace NotificationQueue
set_option autoImplicit false

/-- A count of microseconds as far as 64 bits hold it, and the nearest score otherwise. -/
def Score.saturate (n : Int) : Score :=
  max least (min n greatest)

theorem Score.back_eq_saturate {s : Score} (hs : s ≤ greatest) (micros : Nat) :
    s.back micros = saturate (s - saturate micros) := by
  unfold back saturate least greatest at *
  lia

theorem Score.back_eq_sub_iff (s : Score) (micros : Nat) :
    s.back micros = s - micros ↔ (micros : Int) ≤ greatest ∧ least ≤ s - micros := by
  unfold back least greatest
  lia

namespace Instant

variable {t u : Instant} {n m : Nat}

def earliest : Instant := Timestamp.earliestSecond * 1000000000

/-- What the wall clock can read: an instant of the calendar. -/
def InCalendar (t : Instant) : Prop :=
  earliest ≤ t ∧ t ≤ latest

/-- Whole microseconds since the epoch, rounded down. -/
def score (t : Instant) : Score := t / 1000

theorem earliest_eq : earliest = -8334601228800000000000 := by
  rw [earliest, Timestamp.earliestSecond_eq]
  rfl

theorem inCalendar_iff :
    t.InCalendar ↔ -8334601228800000000000 ≤ t ∧ t ≤ 8210266876799999999999 := by
  rw [InCalendar, earliest_eq, latest_eq]

theorem score_ofScore (s : Score) : (ofScore s).score = s := by
  unfold ofScore score
  lia

theorem InCalendar.score_mem (h : t.InCalendar) :
    Score.least ≤ t.score ∧ t.score < Score.greatest := by
  have hbounds := inCalendar_iff.1 h
  unfold Score.least Score.greatest score
  lia

theorem score_nonneg (h : 0 ≤ t) : 0 ≤ t.score := by
  unfold score
  lia

theorem ofScore_score_mono (h : t ≤ u) : ofScore t.score ≤ ofScore u.score := by
  unfold ofScore score
  lia

theorem InCalendar.ofScore_score (h : t.InCalendar) : (ofScore t.score).InCalendar := by
  rw [inCalendar_iff] at *
  unfold ofScore score
  lia

/-! ## Deadlines -/

/-- **A deadline is the exact sum, or the latest instant if that comes first.** Spans too long to be
added lead beyond the calendar from wherever they start. -/
theorem plusSeconds_eq_min (h : t.InCalendar) (n : Nat) :
    t.plusSeconds n = min (t + n * 1000000000) latest := by
  have hstart := (inCalendar_iff.1 h).1
  have hspan : maxSpan = 9223372036854775 := by decide
  unfold plusSeconds
  rw [latest_eq, hspan]
  dsimp only
  lia

theorem plusSeconds_le_plusSeconds (ht : t.InCalendar) (hu : u.InCalendar) (htu : t ≤ u)
    (hnm : n ≤ m) : t.plusSeconds n ≤ u.plusSeconds m := by
  rw [plusSeconds_eq_min ht, plusSeconds_eq_min hu]
  have hspan : (n : Int) ≤ m := Int.ofNat_le.2 hnm
  lia

/-! ## Cutoffs -/

theorem cutoff_score_le (hu : u.InCalendar) (ht : t.InCalendar) (hepoch : 0 ≤ t)
    (h : u < t.plusSeconds n) : cutoff u.score (.ofSeconds n) ≤ t.score := by
  rw [plusSeconds_eq_min ht] at h
  have hsum : u < t + n * 1000000000 := Int.lt_of_lt_of_le h (Int.min_le_left _ _)
  have hlast := (inCalendar_iff.1 hu).2
  refine cutoff_le ?_ ?_ ?_
  · unfold score
    lia
  · rw [Timestamp.latest_score]
    unfold score
    lia
  · rw [Duration.seconds_ofSeconds]
    unfold score
    lia

end Instant

namespace Store

/-! ## Queues -/

variable {s : Store} {key : String} {score wall : Score} {event : Event} {q : Queue}

theorem deadline_of_append (h : (s.append key score event wall).queue? key = some q) :
    q.deadline = (Instant.ofScore wall).plusSeconds event.ttl := by
  rw [queue?_append, if_pos rfl] at h
  rw [← Option.some.inj h]

theorem mem_expire_append (hwall : (Instant.ofScore wall).InCalendar) (hepoch : 0 ≤ wall)
    {sweep : Score} (hsweep : (Instant.ofScore sweep).InCalendar)
    (hlive : ((s.append key wall event wall).live? key sweep).isSome = true) :
    ⟨wall, s.nextSequence, event⟩ ∈
      ((s.append key wall event wall).expire key (.ofSeconds event.ttl) sweep).2.entries key := by
  obtain ⟨q, hq⟩ := Option.isSome_iff_exists.1 hlive
  obtain ⟨hqueue, hopen⟩ := live?_eq_some.1 hq
  have hbefore : Instant.ofScore sweep < (Instant.ofScore wall).plusSeconds event.ttl := by
    rw [← deadline_of_append hqueue]
    simpa [Queue.isExpired] using hopen
  have hcut := Instant.cutoff_score_le hsweep hwall (by unfold Instant.ofScore; lia) hbefore
  rw [Instant.score_ofScore, Instant.score_ofScore] at hcut
  obtain ⟨q', hq', hmem, -⟩ := (s.keeps_append key wall event wall).expire fun _ => hcut
  rw [entries, hq']
  exact hmem

/-- **Expiry is exact as far as its numbers reach.** The deadline of a queue is the reading of the
wall clock plus the retention, or the latest instant if that comes first, so that with a longer
retention it does not come earlier. A cutoff is the reading in microseconds less the retention in
whole microseconds, each as far as 64 bits hold it, and the exact difference just if they hold both
the retention and that difference. From the epoch on, no sweep before its deadline takes an entry
scored at the time of its own append. -/
theorem expiry_exact {now later : Instant} (hnow : now.InCalendar) (hlater : later.InCalendar) :
    (∀ n : Nat, now.plusSeconds n = min (now + n * 1000000000) Instant.latest) ∧
    (now ≤ later → ∀ n m : Nat, n ≤ m → now.plusSeconds n ≤ later.plusSeconds m) ∧
    (now ≤ later → ∀ (s t : Store) (key key' : String) (x y : Score) (e e' : Event)
        (q q' : Queue),
      (s.append key x e now.score).queue? key = some q →
      (t.append key' y e' later.score).queue? key' = some q' → e.ttl ≤ e'.ttl →
      ∀ time, q'.isExpired time = true → q.isExpired time = true) ∧
    (∀ retention : Duration, cutoff now.score retention =
        Score.saturate (now.score - Score.saturate retention.micros) ∧
      (cutoff now.score retention = now.score - retention.micros ↔
        (retention.micros : Int) ≤ Score.greatest ∧
          Score.least ≤ now.score - retention.micros) ∧
      Score.least ≤ now.score ∧ now.score < Score.greatest) ∧
    (0 ≤ now → (∀ n : Nat, later < now.plusSeconds n →
        cutoff later.score (.ofSeconds n) ≤ now.score) ∧
      ∀ (s : Store) (key : String) (e : Event),
        ((s.append key now.score e now.score).live? key later.score).isSome = true →
        ⟨now.score, s.nextSequence, e⟩ ∈ ((s.append key now.score e now.score).expire key
          (.ofSeconds e.ttl) later.score).2.entries key) := by
  refine ⟨Instant.plusSeconds_eq_min hnow, fun hle n m hnm => ?_,
    fun hle s t key key' x y e e' q q' hq hq' httl time hexpired => ?_,
    fun retention => ⟨?_, ?_, hnow.score_mem⟩,
    fun hepoch => ⟨fun n hbefore => ?_, fun s key e hlive => ?_⟩⟩
  · exact Instant.plusSeconds_le_plusSeconds hnow hlater hle hnm
  · have hdeadline : q.deadline ≤ q'.deadline := by
      rw [deadline_of_append hq, deadline_of_append hq']
      exact Instant.plusSeconds_le_plusSeconds hnow.ofScore_score hlater.ofScore_score
        (Instant.ofScore_score_mono hle) httl
    have hpast : q'.deadline ≤ time := of_decide_eq_true hexpired
    exact decide_eq_true (Int.le_trans hdeadline hpast)
  · exact Score.back_eq_saturate (Int.le_of_lt hnow.score_mem.2) retention.micros
  · exact Score.back_eq_sub_iff now.score retention.micros
  · exact Instant.cutoff_score_le hlater hnow hepoch hbefore
  · exact mem_expire_append hnow.ofScore_score (Instant.score_nonneg hepoch) hlater.ofScore_score
      hlive

/-- The longest retention ends with the calendar. One of five minutes spares an entry until the last
microsecond of them, and its queue is not the later one to expire. -/
theorem expiry_exact_at_the_ends :
    let e : Event := { (default : Event) with ttl := 300 }
    let longer : Event := { e with ttl := 600 }
    let s : Store := ({} : Store).append "a" 1 e 1
    Instant.plusSeconds 1000 Text.maxWord64 = Instant.latest ∧
    Instant.plusSeconds 1000 300 = 300000001000 ∧
    cutoff 300000000 (.ofSeconds 300) ≤ 1 ∧ ¬ cutoff 300000002 (.ofSeconds 300) ≤ 1 ∧
    ⟨1, 0, e⟩ ∈ (s.expire "a" (.ofSeconds 300) 300000000).2.entries "a" ∧
    ∃ q q', s.queue? "a" = some q ∧
      (s.append "b" 2 longer 300000000).queue? "b" = some q' ∧
      q'.isExpired 900000000000 = true ∧ q.isExpired 900000000000 = true := by
  intro e longer s
  have hnow : Instant.InCalendar 1000 := Instant.inCalendar_iff.2 (by decide)
  have hlater : Instant.InCalendar 300000000999 := Instant.inCalendar_iff.2 (by decide)
  obtain ⟨hsum, -, hlonger, -, hspares⟩ := expiry_exact hnow hlater
  have hbefore : (300000000999 : Instant) < Instant.plusSeconds 1000 300 := by
    rw [hsum, Instant.latest_eq]
    decide
  refine ⟨?_, ?_, (hspares (by decide)).1 300 hbefore, by decide,
    (hspares (by decide)).2 {} "a" e (by decide +kernel), _, _, rfl, rfl, by decide +kernel,
    hlonger (by decide) {} s "a" "b" 1 2 e longer _ _ rfl rfl (by decide) _ (by decide +kernel)⟩
  · rw [hsum, Instant.latest_eq]
    decide
  · rw [hsum, Instant.latest_eq]
    decide

end Store

end NotificationQueue
