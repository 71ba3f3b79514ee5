import NotificationQueue.Proofs.Clock

/-!
What a clock has issued, and to whom it is still lent. However calls and readings of the wall clock
follow each other, timestamps rise, the pending scores are those of the reservations that are held,
and the horizon divides the issued scores at the oldest of these.
-/
namespace NotificationQueue
set_option autoImplicit false

/-! ## Points in time in order -/

def Timestamp.Precedes (t u : Timestamp) : Prop :=
  t.seconds < u.seconds ∨ (t.seconds = u.seconds ∧ t.nanos < u.nanos)

theorem Timestamp.ofMicros_precedes {m n : Int} (h0 : 0 ≤ m) (hlt : m < n)
    (hn : n ≤ latest.score) : (ofMicros m).Precedes (ofMicros n) := by
  rw [latest_score] at hn
  have hm : ofMicros m = ⟨m / 1000000, (m % 1000000).toNat * 1000⟩ := by
    rw [ofMicros, ofMicros?_of_nonneg h0 (by omega), Option.getD_some]
  have hn' : ofMicros n = ⟨n / 1000000, (n % 1000000).toNat * 1000⟩ := by
    rw [ofMicros, ofMicros?_of_nonneg (by omega) hn, Option.getD_some]
  rw [hm, hn']
  show m / 1000000 < n / 1000000 ∨ (m / 1000000 = n / 1000000 ∧
    (m % 1000000).toNat * 1000 < (n % 1000000).toNat * 1000)
  omega

/-! ## Calls of a clock -/

/-- A call that changes a clock. Looking at the pending scores, at the present or at the horizon
leaves it as it is. -/
inductive ClockCall where
  | next
  | reserve
  /-- Of the reservations that are held, the one at a place is dropped. -/
  | drop (place : Nat)

/-- A clock with its users: what it has issued, in order, and the reservations that they hold. -/
structure ClockUse where
  clock : Clock := {}
  issued : List Timestamp := []
  held : List Score := []

namespace ClockUse

def call (u : ClockUse) (wall : Score) : ClockCall → ClockUse
  | .next =>
    { u with clock := (u.clock.next wall).2, issued := u.issued ++ [(u.clock.next wall).1] }
  | .reserve =>
    { clock := (u.clock.reserve wall).2
      issued := u.issued ++ [Timestamp.ofMicros (u.clock.reserve wall).1]
      held := u.held ++ [(u.clock.reserve wall).1] }
  | .drop place =>
    match u.held[place]? with
    | some s => { u with clock := u.clock.release s, held := u.held.eraseIdx place }
    | none => u

def run (u : ClockUse) : List (Score × ClockCall) → ClockUse
  | [] => u
  | (wall, c) :: rest => (u.call wall c).run rest

/-! ## What each call keeps -/

structure Sound (u : ClockUse) : Prop where
  clock : u.clock.Sound
  made : ∀ t ∈ u.issued, t = Timestamp.ofMicros t.score
  pos : ∀ t ∈ u.issued, 0 < t.score
  le_last : ∀ t ∈ u.issued, t.score ≤ u.clock.last
  rising : u.issued.Pairwise fun t v => t.score < v.score
  lent : u.clock.pending.Perm u.held

variable {u : ClockUse} {wall : Score} {c : ClockCall}

theorem last_le_call (h : (u.call wall c).clock.last ≤ Timestamp.latest.score) :
    u.clock.last ≤ (u.call wall c).clock.last := by
  cases c with
  | next => exact Int.le_of_lt (Clock.last_lt_of_candidate_le h)
  | reserve => exact Int.le_of_lt (Clock.last_lt_of_candidate_le h)
  | drop place =>
    simp only [call]
    split
    · exact Int.le_refl _
    · exact Int.le_refl _

theorem last_le_run {calls : List (Score × ClockCall)}
    (h : (u.run calls).clock.last ≤ Timestamp.latest.score) :
    u.clock.last ≤ (u.run calls).clock.last := by
  induction calls generalizing u with
  | nil => exact Int.le_refl _
  | cons x rest ih =>
    obtain ⟨w, c⟩ := x
    have hrest : (u.call w c).clock.last ≤ (u.run ((w, c) :: rest)).clock.last := ih h
    have hcall := last_le_call (Int.le_trans hrest h)
    exact Int.le_trans hcall hrest

theorem Sound.issue (h : u.Sound) (hcal : u.clock.candidate wall ≤ Timestamp.latest.score)
    {t : Timestamp} (ht : t = Timestamp.ofMicros (u.clock.candidate wall)) :
    (∀ v ∈ u.issued ++ [t], v = Timestamp.ofMicros v.score) ∧
    (∀ v ∈ u.issued ++ [t], 0 < v.score) ∧
    (∀ v ∈ u.issued ++ [t], v.score ≤ u.clock.candidate wall) ∧
    (u.issued ++ [t]).Pairwise fun v w => v.score < w.score := by
  have hnew := Clock.last_lt_of_candidate_le hcal
  have hpos : 0 < u.clock.candidate wall := Clock.candidate_pos h.clock.last_nonneg
  have hscore : t.score = u.clock.candidate wall := by
    rw [ht, Timestamp.score_ofMicros (by lia)]
    lia
  have hlast : ∀ v ∈ u.issued, v.score < t.score := by
    intro v hv
    have := h.le_last v hv
    lia
  have hend : ∀ {P : Timestamp → Prop}, (∀ v ∈ u.issued, P v) → P t → ∀ v ∈ u.issued ++ [t], P v :=
    fun hold hnew => List.forall_mem_append.2 ⟨hold, List.forall_mem_singleton.2 hnew⟩
  refine ⟨hend h.made ?_, hend h.pos ?_, hend (fun v hv => ?_) ?_, ?_⟩
  · rw [hscore, ht]
  · lia
  · have := hlast v hv
    lia
  · lia
  · refine List.pairwise_append.2 ⟨h.rising, List.pairwise_singleton _ _, ?_⟩
    intro v hv w hw
    rw [List.mem_singleton.1 hw]
    exact hlast v hv

theorem Sound.next (h : u.Sound) (hcal : u.clock.candidate wall ≤ Timestamp.latest.score) :
    (u.call wall .next).Sound := by
  obtain ⟨hmade, hpos, hle, hrising⟩ := h.issue hcal rfl
  exact ⟨h.clock.next wall, hmade, hpos, hle, hrising, h.lent⟩

theorem Sound.reserve (h : u.Sound) (hcal : u.clock.candidate wall ≤ Timestamp.latest.score) :
    (u.call wall .reserve).Sound := by
  have hscore := Clock.reserve_score_of_le h.clock.last_nonneg hcal
  have hnew := Clock.last_lt_of_candidate_le hcal
  obtain ⟨hmade, hpos, hle, hrising⟩ := h.issue hcal (congrArg Timestamp.ofMicros hscore)
  refine ⟨h.clock.reserve wall, hmade, hpos, hle, hrising, ?_⟩
  have hfresh : (u.clock.reserve wall).1 ∉ u.clock.pending := by
    intro hp
    have := h.clock.le_last _ hp
    lia
  have hinsert : (u.clock.reserve wall).2.pending.Perm
      ((u.clock.reserve wall).1 :: u.clock.pending) := Clock.insert_perm hfresh
  have hlent := (h.lent.cons (u.clock.reserve wall).1).trans (List.perm_append_singleton _ _).symm
  exact hinsert.trans hlent

theorem perm_cons_eraseIdx {l : List Score} {i : Nat} {s : Score} (h : l[i]? = some s) :
    l.Perm (s :: l.eraseIdx i) := by
  obtain ⟨hi, rfl⟩ := List.getElem?_eq_some_iff.1 h
  have hsplit : l.take i ++ l[i] :: l.drop (i + 1) = l := by
    rw [← List.drop_eq_getElem_cons hi, List.take_append_drop]
  have hmiddle : (l.take i ++ l[i] :: l.drop (i + 1)).Perm
      (l[i] :: (l.take i ++ l.drop (i + 1))) := List.perm_middle
  rw [hsplit] at hmiddle
  rwa [List.eraseIdx_eq_take_drop_succ]

theorem Sound.drop (h : u.Sound) (place : Nat) : (u.call wall (.drop place)).Sound := by
  simp only [call]
  split
  · next s hs =>
    refine ⟨h.clock.release s, h.made, h.pos, h.le_last, h.rising, ?_⟩
    have hdistinct : u.clock.pending.Nodup := h.clock.sorted.imp fun hlt => Int.ne_of_lt hlt
    have hheld : u.held.Perm (s :: u.held.eraseIdx place) := perm_cons_eraseIdx hs
    have hmem : s ∈ u.clock.pending := h.lent.mem_iff.2 (List.mem_of_getElem? hs)
    have hrelease : (u.clock.release s).pending = u.clock.pending.erase s := by
      rw [hdistinct.erase_eq_filter]
      refine List.filter_congr fun p _ => ?_
      by_cases hp : p = s <;> simp [hp]
    have hrest : u.clock.pending.Perm (s :: u.clock.pending.erase s) := List.perm_cons_erase hmem
    rw [hrelease]
    exact ((hrest.symm.trans h.lent).trans hheld).cons_inv
  · exact h

theorem Sound.call (h : u.Sound) (hcal : (u.call wall c).clock.last ≤ Timestamp.latest.score) :
    (u.call wall c).Sound := by
  cases c with
  | next => exact h.next hcal
  | reserve => exact h.reserve hcal
  | drop place => exact h.drop place

theorem Sound.run (h : u.Sound) {calls : List (Score × ClockCall)}
    (hcal : (u.run calls).clock.last ≤ Timestamp.latest.score) : (u.run calls).Sound := by
  induction calls generalizing u with
  | nil => exact h
  | cons x rest ih =>
    obtain ⟨w, c⟩ := x
    have hrest : (u.call w c).clock.last ≤ (u.run ((w, c) :: rest)).clock.last := last_le_run hcal
    have hcall : (u.call w c).Sound := h.call (Int.le_trans hrest hcal)
    exact ih hcall hcal

theorem sound_new : Sound {} :=
  ⟨Clock.sound_new, nofun, nofun, nofun, List.Pairwise.nil, List.Perm.refl _⟩

/-! ## The horizon among the issued scores -/

theorem Sound.precedes (h : u.Sound) (hcal : u.clock.last ≤ Timestamp.latest.score) :
    u.issued.Pairwise Timestamp.Precedes := by
  refine h.rising.imp_of_mem fun {t v} ht hv hlt => ?_
  have hpos := h.pos t ht
  have hle := h.le_last v hv
  rw [h.made t ht, h.made v hv]
  exact Timestamp.ofMicros_precedes (by lia) hlt (by lia)

theorem Sound.le_horizon_iff (h : u.Sound) {t : Timestamp} (ht : t ∈ u.issued) :
    t.score ≤ u.clock.horizon wall ↔ ∀ p ∈ u.clock.pending, t.score < p := by
  constructor
  · intro hle p hp
    have hlt : u.clock.horizon wall < p := h.clock.horizon_lt hp
    lia
  · intro hall
    cases hp : u.clock.pending with
    | nil =>
      have hlast := h.le_last t ht
      rw [Clock.horizon_of_pending_eq_nil hp]
      lia
    | cons oldest rest =>
      have hlt := hall oldest (by rw [hp]; exact List.mem_cons_self)
      simp only [Clock.horizon, hp, Score.pred]
      lia

/-- **The horizon of a clock divides what it has issued at the oldest pending score.** After any
calls, in any order and at any readings of the wall clock, each timestamp issued comes after all
those before it, the pending scores are those of the reservations still held, the present is not
behind any issued score, and the issued scores up to the horizon are just those below all pending
ones; nothing pending is among them. -/
theorem horizon_divides_issued (calls : List (Score × ClockCall))
    (hcal : (run {} calls).clock.last ≤ Timestamp.latest.score) :
    (run {} calls).issued.Pairwise Timestamp.Precedes ∧
    (run {} calls).clock.pending.Perm (run {} calls).held ∧
    ∀ wall,
      (∀ t ∈ (run {} calls).issued, t.score ≤ (run {} calls).clock.nowScore wall) ∧
      (∀ t ∈ (run {} calls).issued, t.score ≤ (run {} calls).clock.horizon wall ↔
        ∀ p ∈ (run {} calls).clock.pending, t.score < p) ∧
      ∀ p ∈ (run {} calls).clock.pending, (run {} calls).clock.horizon wall < p := by
  have h : (run {} calls).Sound := sound_new.run hcal
  refine ⟨h.precedes hcal, h.lent, fun wall => ⟨?_, ?_, ?_⟩⟩
  · intro t ht
    have hlast := h.le_last t ht
    unfold Clock.nowScore
    lia
  · intro t ht
    exact h.le_horizon_iff ht
  · intro p hp
    exact h.clock.horizon_lt hp

/-- Three scores are issued while the wall clock goes back, and the older of two reservations is
dropped first: the horizon then stops below the other one. -/
theorem horizon_behind_dropped_reservation :
    let u := run {} [(10, .reserve), (30, .next), (5, .reserve), (20, .drop 0)]
    u.clock.last ≤ Timestamp.latest.score ∧ u.issued.map Timestamp.score = [10, 30, 31] ∧
    u.held = [31] ∧ u.clock.horizon 0 = 30 ∧
    (∀ t ∈ u.issued, t.score ≤ u.clock.horizon 0 ↔ ∀ p ∈ u.clock.pending, t.score < p) := by
  intro u
  have hcal : u.clock.last ≤ Timestamp.latest.score := by decide
  obtain ⟨-, -, hlooks⟩ :=
    horizon_divides_issued [(10, .reserve), (30, .next), (5, .reserve), (20, .drop 0)] hcal
  exact ⟨hcal, by decide, by decide, by decide, (hlooks 0).2.1⟩

end ClockUse

end NotificationQueue
