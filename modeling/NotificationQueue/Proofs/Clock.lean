import NotificationQueue.Clock
import NotificationQueue.Proofs.Time.Score

/-!
The clock. A reserved score stays pending until it is released, every pending score lies at or below
the last one given, and the horizon lies below all of them and never ahead of both clocks.
-/
namespace NotificationQueue.Clock
set_option autoImplicit false

/-! ## Pending scores -/

theorem mem_insert {s p : Score} {l : List Score} : p ∈ insert s l ↔ p = s ∨ p ∈ l := by
  induction l with
  | nil => simp [insert]
  | cons t rest ih =>
    by_cases hlt : s < t
    · simp [insert, hlt]
    · by_cases heq : s = t
      · subst heq
        simp [insert]
      · simp only [insert, hlt, heq, if_false, List.mem_cons, ih]
        exact or_left_comm

theorem insert_sorted {s : Score} {l : List Score} (h : l.Pairwise (· < ·)) :
    (insert s l).Pairwise (· < ·) := by
  induction l with
  | nil => simp [insert]
  | cons t rest ih =>
    obtain ⟨ht, hrest⟩ := List.pairwise_cons.1 h
    by_cases hlt : s < t
    · rw [insert, if_pos hlt, List.pairwise_cons]
      refine ⟨fun p hp => ?_, h⟩
      rcases List.mem_cons.1 hp with rfl | hp
      · exact hlt
      · have := ht p hp
        lia
    · by_cases heq : s = t
      · rw [insert, if_neg hlt, if_pos heq]
        exact h
      · rw [insert, if_neg hlt, if_neg heq, List.pairwise_cons]
        refine ⟨fun p hp => ?_, ih hrest⟩
        rcases mem_insert.1 hp with rfl | hp
        · lia
        · exact ht p hp

theorem insert_perm {s : Score} {l : List Score} (h : s ∉ l) : (insert s l).Perm (s :: l) := by
  induction l with
  | nil => exact List.Perm.refl _
  | cons t rest ih =>
    have hne : s ≠ t := fun heq => h (heq ▸ List.mem_cons_self)
    have hrest : s ∉ rest := fun hs => h (List.mem_cons_of_mem t hs)
    by_cases hlt : s < t
    · rw [insert, if_pos hlt]
    · rw [insert, if_neg hlt, if_neg hne]
      exact ((ih hrest).cons t).trans (List.Perm.swap s t rest)

/-! ## Steps of the clock -/

/-- What holds of every clock, however scores have been reserved and released. -/
structure Sound (c : Clock) : Prop where
  last_nonneg : 0 ≤ c.last
  sorted : c.pending.Pairwise (· < ·)
  pos : ∀ p ∈ c.pending, 0 < p
  le_last : ∀ p ∈ c.pending, p ≤ c.last
  le_latest : ∀ p ∈ c.pending, p ≤ Timestamp.latest.score

theorem sound_new : Sound {} where
  last_nonneg := Int.le_refl 0
  sorted := List.Pairwise.nil
  pos := by simp
  le_last := by simp
  le_latest := by simp

variable {c : Clock} {wall p s : Score}

theorem wall_le_candidate : wall ≤ c.candidate wall := by
  unfold candidate
  lia

theorem candidate_pos (h : 0 ≤ c.last) : 0 < c.candidate wall := by
  unfold candidate Score.succ Score.greatest
  lia

theorem le_candidate (h : p ≤ c.last) (hp : p ≤ Timestamp.latest.score) :
    p ≤ c.candidate wall := by
  rw [Timestamp.latest_score] at hp
  unfold candidate Score.succ Score.greatest
  lia

@[simp] theorem reserve_last : (c.reserve wall).2.last = c.candidate wall := rfl

theorem reserve_score (h : 0 ≤ c.last) :
    (c.reserve wall).1 = min (c.candidate wall) Timestamp.latest.score := by
  have hpos : 0 < c.candidate wall := candidate_pos h
  exact Timestamp.score_ofMicros (by lia)

theorem last_lt_of_candidate_le (h : c.candidate wall ≤ Timestamp.latest.score) :
    c.last < c.candidate wall := by
  rw [Timestamp.latest_score] at h
  unfold candidate Score.succ Score.greatest at *
  lia

theorem reserve_score_of_le (h0 : 0 ≤ c.last) (h : c.candidate wall ≤ Timestamp.latest.score) :
    (c.reserve wall).1 = c.candidate wall := by
  rw [reserve_score h0]
  lia

theorem reserve_pos (h : 0 ≤ c.last) : 0 < (c.reserve wall).1 := by
  have hpos : 0 < c.candidate wall := candidate_pos h
  rw [reserve_score h, Timestamp.latest_score]
  lia

theorem mem_pending_reserve :
    p ∈ (c.reserve wall).2.pending ↔ p = (c.reserve wall).1 ∨ p ∈ c.pending :=
  mem_insert

@[simp] theorem release_last : (c.release s).last = c.last := rfl

theorem mem_pending_release : p ∈ (c.release s).pending ↔ p ∈ c.pending ∧ p ≠ s := by
  simp [release]

theorem Sound.next (hc : c.Sound) (wall : Score) : (c.next wall).2.Sound where
  last_nonneg := Int.le_of_lt (candidate_pos hc.last_nonneg)
  sorted := hc.sorted
  pos := hc.pos
  le_last p hp := le_candidate (hc.le_last p hp) (hc.le_latest p hp)
  le_latest := hc.le_latest

theorem Sound.reserve (hc : c.Sound) (wall : Score) : (c.reserve wall).2.Sound where
  last_nonneg := by
    have hpos : 0 < c.candidate wall := candidate_pos hc.last_nonneg
    rw [reserve_last]
    lia
  sorted := insert_sorted hc.sorted
  pos := by
    intro p hp
    rcases mem_pending_reserve.1 hp with rfl | hp
    · exact reserve_pos hc.last_nonneg
    · exact hc.pos p hp
  le_last := by
    intro p hp
    rw [reserve_last]
    rcases mem_pending_reserve.1 hp with rfl | hp
    · rw [reserve_score hc.last_nonneg]
      lia
    · exact le_candidate (hc.le_last p hp) (hc.le_latest p hp)
  le_latest := by
    intro p hp
    rcases mem_pending_reserve.1 hp with rfl | hp
    · rw [reserve_score hc.last_nonneg]
      lia
    · exact hc.le_latest p hp

theorem Sound.release (hc : c.Sound) (s : Score) : (c.release s).Sound where
  last_nonneg := hc.last_nonneg
  sorted := hc.sorted.filter _
  pos p hp := hc.pos p (mem_pending_release.1 hp).1
  le_last p hp := hc.le_last p (mem_pending_release.1 hp).1
  le_latest p hp := hc.le_latest p (mem_pending_release.1 hp).1

/-! ## The horizon -/

theorem horizon_of_pending_eq_nil (h : c.pending = []) : c.horizon wall = max wall c.last := by
  rw [horizon, h, nowScore]

theorem Sound.horizon_lt (hc : c.Sound) (hp : p ∈ c.pending) : c.horizon wall < p := by
  have hpos := hc.pos p hp
  have hsorted := hc.sorted
  cases hl : c.pending with
  | nil => simp [hl] at hp
  | cons oldest rest =>
    have hold := hc.pos oldest (by simp [hl])
    have hle : oldest ≤ p := by
      rw [hl] at hp hsorted
      rcases List.mem_cons.1 hp with rfl | hp
      · lia
      · have := (List.pairwise_cons.1 hsorted).1 p hp
        lia
    simp only [horizon, hl, Score.pred, Score.least]
    lia

theorem Sound.horizon_lt_last (hc : c.Sound) (hp : c.pending ≠ []) : c.horizon wall < c.last := by
  obtain ⟨p, hp⟩ := List.exists_mem_of_ne_nil _ hp
  have h1 : c.horizon wall < p := hc.horizon_lt hp
  have h2 := hc.le_last p hp
  lia

theorem Sound.horizon_le (hc : c.Sound) : c.horizon wall ≤ max wall c.last := by
  by_cases hp : c.pending = []
  · exact Int.le_of_eq (horizon_of_pending_eq_nil hp)
  · have hlt : c.horizon wall < c.last := hc.horizon_lt_last hp
    lia

end NotificationQueue.Clock
