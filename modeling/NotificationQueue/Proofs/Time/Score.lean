import NotificationQueue.Time.Timestamp

/-!
Scores and points in time. Within the calendar a score is the score of the point in time that it
makes; beyond the last microsecond of the calendar all scores make the latest point in time.
-/
namespace NotificationQueue.Timestamp
set_option autoImplicit false

/-! ## The ends of the calendar -/

theorem earliestSecond_eq : earliestSecond = -8334601228800 := by decide

theorem latestSecond_eq : latestSecond = 8210266876799 := by decide

theorem latest_score : latest.score = 8210266876799999999 := by decide

theorem isKept_iff (s : Int) : isKept s = true ↔ -8334601228800 ≤ s ∧ s ≤ 8210266876799 := by
  simp only [isKept, earliestSecond_eq, latestSecond_eq, Bool.and_eq_true, decide_eq_true_eq]

/-! ## Scores of points in time -/

theorem ofMicros?_of_nonneg {m : Int} (h0 : 0 ≤ m) (h : m ≤ 8210266876799999999) :
    ofMicros? m = some ⟨m / 1000000, (m % 1000000).toNat * 1000⟩ := by
  have hs : m.fdiv 1000000 = m / 1000000 := Int.fdiv_eq_ediv_of_nonneg m (by omega)
  have hk : isKept (m / 1000000) = true := (isKept_iff _).2 (by omega)
  have hr : m - m / 1000000 * 1000000 = m % 1000000 := by omega
  simp only [ofMicros?, hs, hk, if_true, hr]

theorem ofMicros?_of_late {m : Int} (h : 8210266876799999999 < m) : ofMicros? m = none := by
  have hs : m.fdiv 1000000 = m / 1000000 := Int.fdiv_eq_ediv_of_nonneg m (by omega)
  have hk : isKept (m / 1000000) = false := by
    rw [← Bool.not_eq_true, isKept_iff]
    omega
  simp only [ofMicros?, hs, hk, Bool.false_eq_true, if_false]

theorem score_ofMicros {m : Int} (h0 : 0 ≤ m) : (ofMicros m).score = min m latest.score := by
  rw [latest_score]
  by_cases h : m ≤ 8210266876799999999
  · rw [ofMicros, ofMicros?_of_nonneg h0 h, Option.getD_some, score]
    have hn : (((m % 1000000).toNat * 1000 : Nat) : Int) / 1000 = m % 1000000 := by omega
    rw [hn]
    lia
  · rw [ofMicros, ofMicros?_of_late (by omega), Option.getD_none, latest_score]
    lia

end NotificationQueue.Timestamp
