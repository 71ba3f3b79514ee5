import NotificationQueue.Proofs.Store.Trimming
import NotificationQueue.Proofs.Time.Score

/-!
How long entries stay. An append sets the deadline of its queue anew and, as time goes on, never
earlier; a sweep spares the scores from its cutoff on. Before the deadline that its own append has
set, and while its score is not below any cutoff, an entry leaves its queue by a trim alone.
-/
namespace NotificationQueue
set_option autoImplicit false

/-! ## Deadlines and cutoffs -/

theorem Duration.seconds_le_micros (d : Duration) : d.seconds * 1000000 ≤ d.micros := by
  simp only [seconds, micros, perSecond, perMicro]
  omega

namespace Instant

theorem latest_eq : latest = 8210266876799999999999 := by
  rw [latest, Timestamp.latestSecond_eq]
  rfl

theorem plusSeconds_mono {a b : Instant} (h : a ≤ b) (n : Nat) :
    a.plusSeconds n ≤ b.plusSeconds n := by
  unfold plusSeconds
  dsimp only
  lia

theorem ofScore_lt_plusSeconds {start wall : Score} {n : Nat}
    (hcal : wall ≤ Timestamp.latest.score) (h : wall < start + n * 1000000) :
    ofScore wall < (ofScore start).plusSeconds n := by
  rw [Timestamp.latest_score] at hcal
  unfold plusSeconds ofScore
  rw [latest_eq]
  dsimp only
  lia

end Instant

theorem cutoff_le {wall score : Score} {retention : Duration} (h0 : 0 ≤ score)
    (hcal : wall ≤ Timestamp.latest.score) (h : wall ≤ score + retention.seconds * 1000000) :
    cutoff wall retention ≤ score := by
  have hwhole := retention.seconds_le_micros
  rw [Timestamp.latest_score] at hcal
  unfold cutoff Score.back Score.greatest Score.least
  lia

/-! ## What spares an entry -/

namespace Store

def Keeps (s : Store) (key : String) (e : Entry) (due : Instant) : Prop :=
  ∃ q, s.queue? key = some q ∧ e ∈ q.entries ∧ due ≤ q.deadline

/-- A call does not bring the deadline of a key before an instant, and drops an entry of the key at
most by a trim. -/
def Call.Spares (wall : Score) (key : String) (e : Entry) (due : Instant) : Call → Prop
  | .append k _ event => k = key → due ≤ (Instant.ofScore wall).plusSeconds event.ttl
  | .expire k retention => k = key → cutoff wall retention ≤ e.score
  | .clear => False
  | _ => True

variable {s : Store} {key : String} {e : Entry} {due : Instant} {wall : Score} {c : Call}

theorem Keeps.of_queue? {t : Store} (h : s.Keeps key e due) (hq : t.queue? key = s.queue? key) :
    t.Keeps key e due := by
  unfold Keeps
  rw [hq]
  exact h

theorem Keeps.live? (h : s.Keeps key e due) (hwall : Instant.ofScore wall < due) :
    ∃ q, s.live? key wall = some q ∧ e ∈ q.entries ∧ due ≤ q.deadline := by
  obtain ⟨q, hq, he, hdue⟩ := h
  have hlt : Instant.ofScore wall < q.deadline := Int.lt_of_lt_of_le hwall hdue
  have hopen : q.isExpired (Instant.ofScore wall) = false := by simpa [Queue.isExpired] using hlt
  exact ⟨q, live?_eq_some.2 ⟨hq, hopen⟩, he, hdue⟩

theorem Keeps.mem_liveEntries (h : s.Keeps key e due) (hwall : Instant.ofScore wall < due) :
    e ∈ s.liveEntries key wall := by
  obtain ⟨q, hlive, he, -⟩ := h.live? hwall
  rw [liveEntries, hlive]
  exact he

theorem keeps_append (s : Store) (key : String) (score : Score) (event : Event) (wall : Score) :
    (s.append key score event wall).Keeps key ⟨score, s.nextSequence, event⟩
      ((Instant.ofScore wall).plusSeconds event.ttl) := by
  have hq := s.queue?_append key key score event wall
  rw [if_pos rfl] at hq
  exact ⟨_, hq, Queue.mem_insertEntry.2 (.inl rfl), Int.le_refl _⟩

theorem Keeps.append (h : s.Keeps key e due) (hwall : Instant.ofScore wall < due) {k : String}
    {event : Event} (hdue : k = key → due ≤ (Instant.ofScore wall).plusSeconds event.ttl)
    (score : Score) : (s.append k score event wall).Keeps key e due := by
  by_cases hk : key = k
  · subst hk
    have hlive := h.mem_liveEntries hwall
    have hq := s.queue?_append key key score event wall
    rw [if_pos rfl] at hq
    exact ⟨_, hq, Queue.mem_insertEntry.2 (.inr hlive), hdue rfl⟩
  · refine h.of_queue? ?_
    rw [queue?_append, if_neg hk]

theorem Keeps.trim (h : s.Keeps key e due) (k : String) (n : Nat) :
    (s.trim k n).2.Keeps key e due ∨ k = key ∧ e ∉ (s.trim k n).2.entries key := by
  by_cases hk : key = k
  · subst hk
    by_cases he : e ∈ (s.trim key n).2.entries key
    · obtain ⟨q, hq, -, hdue⟩ := h
      have htrimmed : (s.trim key n).2.queue? key = some (q.trimmed n) := by
        rw [queue?_trim, hq, Option.map_some, if_pos rfl]
      rw [entries, htrimmed] at he
      exact .inl ⟨q.trimmed n, htrimmed, he, hdue⟩
    · exact .inr ⟨rfl, he⟩
  · refine .inl (h.of_queue? ?_)
    rw [queue?_trim]
    simp [hk]

theorem Keeps.expire (h : s.Keeps key e due) {k : String} {retention : Duration}
    (hcut : k = key → cutoff wall retention ≤ e.score) :
    (s.expire k retention wall).2.Keeps key e due := by
  by_cases hk : key = k
  · subst hk
    obtain ⟨q, hq, he, hdue⟩ := h
    have hkept : e ∈ (q.sweptBelow (cutoff wall retention)).entries :=
      List.mem_filter.2 ⟨he, decide_eq_true (hcut rfl)⟩
    refine ⟨_, ?_, hkept, hdue⟩
    rw [queue?_expire, hq, Option.map_some, if_pos rfl]
  · refine h.of_queue? ?_
    rw [queue?_expire]
    simp [hk]

theorem Keeps.purge (h : s.Keeps key e due) (hs : s.Sound) (hwall : Instant.ofScore wall < due) :
    (s.purge wall).2.Keeps key e due := by
  obtain ⟨q, hlive, he, hdue⟩ := h.live? hwall
  refine ⟨q, ?_, he, hdue⟩
  rw [queue?_purge hs.nodup, hlive]

/-- **A call that spares an entry leaves it where it is, or is a trim that drops it.** -/
theorem Keeps.call (h : s.Keeps key e due) (hs : s.Sound) (hwall : Instant.ofScore wall < due)
    (hc : c.Spares wall key e due) :
    (s.call wall c).2.Keeps key e due ∨
      ∃ n, c = .trim key n ∧ e ∉ (s.call wall c).2.entries key := by
  cases c with
  | append k score event => exact .inl (h.append hwall hc score)
  | trim k n =>
    refine (h.trim k n).imp_right ?_
    rintro ⟨rfl, he⟩
    exact ⟨n, rfl, he⟩
  | expire k retention => exact .inl (h.expire hc)
  | purge => exact .inl (h.purge hs hwall)
  | clear => exact hc.elim
  | range | find | size | count => exact .inl h

end Store

end NotificationQueue
