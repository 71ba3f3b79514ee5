import NotificationQueue.Proofs.Service.Horizon
import Mathlib.Data.Finset.Card

/-!
What a service holds, and for whom. Every slot that is held belongs to a background write that has
not ended, and every pending score to a write that the store has not answered or that has not gone
on since: nothing is held for nobody, however writes end. Once no write is under way, all slots are
free, no score is pending, and readers may see everything that is stored.
-/
namespace NotificationQueue
set_option autoImplicit false

theorem Slots.acquire?_eq_some {s t : Slots} (h : s.acquire? = some t) :
    t.capacity = s.capacity ∧ t.held = s.held + 1 ∧ s.held < s.capacity := by
  unfold acquire? at h
  split at h
  · cases h
  · next hfree =>
    cases h
    rw [not_or] at hfree
    have hpos : s.capacity - s.held ≠ 0 := hfree.2
    exact ⟨rfl, rfl, by omega⟩

def isOpenWrite (w : Option Write) : Bool :=
  w.any fun w => (Task.write w).isOpenBackgroundWrite

theorem isOpenWrite_of_phase {w : Write} (h : ∀ r, w.phase ≠ .finished r) :
    isOpenWrite (some w) = w.background := by
  obtain ⟨key, event, score, background, phase⟩ := w
  cases phase with
  | finished r => exact absurd rfl (h r)
  | _ => exact Bool.and_true background

theorem isOpenWrite_finished (w : Write) (r : Except StoreFault Unit) :
    isOpenWrite (some { w with phase := .finished r }) = false :=
  Bool.and_false w.background

namespace Core

/-! ## Slots -/

def Open (c : Core) (i : Nat) : Prop :=
  isOpenWrite (c.writes i) = true

/-- As many slots are held as background writes have not ended, and no more than there are. -/
structure Balanced (c : Core) : Prop where
  capacity : c.slots.capacity = c.settings.writeSlots
  held : ∃ ids : Finset Nat, (∀ i, i ∈ ids ↔ c.Open i) ∧ ids.card = c.slots.held
  held_le : c.slots.held ≤ c.slots.capacity

variable {c c' : Core} {l : Option Notice} {d : Int} {id : Nat} {w : Write}

theorem open_setWrite {i : Nat} {v : Option Write} :
    (c.setWrite id v).Open i ↔ if i = id then isOpenWrite v = true else c.Open i := by
  unfold Open setWrite
  dsimp only
  split <;> rfl

theorem open_setWrite_of_eq {v : Option Write} (h : isOpenWrite v = isOpenWrite (c.writes id))
    (i : Nat) : (c.setWrite id v).Open i ↔ c.Open i := by
  rw [open_setWrite]
  split
  · next hi => rw [h, hi, Open]
  · rfl

structure KeepsSlots (c c' : Core) : Prop where
  capacity : c'.slots.capacity = c.slots.capacity
  held : c'.slots.held = c.slots.held
  closed : c.slots.closed = true → c'.slots.closed = true
  opens : ∀ i, c'.Open i ↔ c.Open i

def TakesSlot (c c' : Core) (id : Nat) : Prop :=
  c.slots.acquire? = some c'.slots ∧ ¬ c.Open id ∧ ∀ i, c'.Open i ↔ i = id ∨ c.Open i

def GivesSlot (c c' : Core) (id : Nat) : Prop :=
  c'.slots = c.slots.release ∧ c.Open id ∧ ∀ i, c'.Open i ↔ i ≠ id ∧ c.Open i

theorem slots_stamp (d : Draft) (hfree : c.writes id = none) :
    c.KeepsSlots (c.stamp id d) ∨ c.TakesSlot (c.stamp id d) id := by
  have hclosed : isOpenWrite (c.writes id) = false := by
    rw [hfree]
    rfl
  have hopen : isOpenWrite (some (c.writeOf d)) = c.slots.acquire?.isSome :=
    isOpenWrite_of_phase nofun
  have hslots : (c.stamp id d).slots = c.slots.acquire?.getD c.slots := rfl
  cases hacquire : c.slots.acquire? with
  | none =>
    rw [hacquire] at hopen hslots
    refine .inl ⟨congrArg Slots.capacity hslots, congrArg Slots.held hslots, fun h => ?_,
      fun i => open_setWrite_of_eq (hopen.trans hclosed.symm) i⟩
    rw [hslots]
    exact h
  | some slots =>
    rw [hacquire] at hopen hslots
    refine .inr ⟨?_, ?_, fun i => ?_⟩
    · rw [hslots, hacquire]
      rfl
    · rw [Open, hclosed]
      exact Bool.false_ne_true
    · rw [Core.stamp, open_setWrite]
      split
      · next hi => simp [hopen, hi]
      · next hi => simp [hi, Open]

theorem slots_finish {r : Except StoreFault Unit} (hw : c.writes id = some w)
    (hp : w.phase = .ending r) :
    let c' := { c with slots := if w.background then c.slots.release else c.slots }.setWrite id
      (some { w with phase := .finished r })
    c.KeepsSlots c' ∨ c.GivesSlot c' id := by
  have hbefore : isOpenWrite (c.writes id) = w.background := by
    rw [hw]
    exact isOpenWrite_of_phase fun r' hr' => by rw [hp] at hr'; cases hr'
  by_cases hb : w.background = true
  · rw [if_pos hb]
    refine .inr ⟨rfl, hbefore.trans hb, fun i => ?_⟩
    rw [open_setWrite, isOpenWrite_finished]
    split
    · next hi => simp [hi]
    · next hi => simp [hi, Open]
  · rw [if_neg hb]
    refine .inl ⟨rfl, rfl, fun h => h, fun i => open_setWrite_of_eq ?_ i⟩
    rw [isOpenWrite_finished]
    exact (hbefore.trans (Bool.eq_false_iff.2 hb)).symm

/-- **A step takes a slot for a new background write, gives one back at the end of one, or leaves
all slots as they are.** -/
theorem Step.slots_cases (hstep : c.Step l d c') :
    c.KeepsSlots c' ∨ (∃ id, c.TakesSlot c' id) ∨ ∃ id, c.GivesSlot c' id := by
  -- A write that goes on, or is left by its caller, takes no slot with it.
  have hgo : ∀ {id : Nat} {w : Write} {p : WritePhase} {st : Store} {clock : Clock},
      c.writes id = some w → (∀ r, w.phase ≠ .finished r) → (∀ r, p ≠ .finished r) →
      c.KeepsSlots ({ c with store := st, clock }.setWrite id (some { w with phase := p })) := by
    intro id w p st clock hw hphase hp
    refine ⟨rfl, rfl, fun h => h, fun i => open_setWrite_of_eq ?_ i⟩
    show _ = isOpenWrite (c.writes id)
    rw [hw, isOpenWrite_of_phase hphase]
    exact isOpenWrite_of_phase hp
  have hleave : ∀ {id : Nat} {w : Write} {clock : Clock}, c.writes id = some w →
      w.background = false → c.KeepsSlots ({ c with clock }.setWrite id none) := by
    intro id w clock hw hb
    refine ⟨rfl, rfl, fun h => h, fun i => open_setWrite_of_eq ?_ i⟩
    show _ = isOpenWrite (c.writes id)
    rw [hw]
    simp [isOpenWrite, Task.isOpenBackgroundWrite, hb]
  cases hstep with
  | stamp id d hfree => exact (slots_stamp d hfree).imp_right fun h => .inl ⟨id, h⟩
  | land hw hp => exact .inl (hgo hw (by rw [hp]; nofun) nofun)
  | fail f hw hp => exact .inl (hgo hw (by rw [hp]; nofun) nofun)
  | @release id w r hw hp => exact .inl (hgo hw (by rw [hp]; nofun) (by cases r <;> nofun))
  | trim hw hp => exact .inl (hgo hw (by rw [hp]; nofun) nofun)
  | skip hw hp => exact .inl (hgo hw (by rw [hp]; nofun) nofun)
  | @finish id w r hw hp => exact (slots_finish hw hp).imp_right fun h => .inr ⟨id, h⟩
  | abandon hw hb => exact .inl (hleave hw hb)
  | forget hw hb => exact .inl (hleave hw hb)
  | close => exact .inl ⟨rfl, rfl, fun _ => rfl, fun _ => Iff.rfl⟩
  | _ => exact .inl ⟨rfl, rfl, fun h => h, fun _ => Iff.rfl⟩

theorem Balanced.step (h : c.Balanced) (hstep : c.Step l d c') : c'.Balanced := by
  obtain ⟨ids, hids, hcard⟩ := h.held
  have hcapacity := h.capacity
  have hle := h.held_le
  have hsettings := congrArg QueueSettings.writeSlots hstep.settings
  rcases hstep.slots_cases with hkeeps | ⟨id, hslots, hnew, hopen⟩ | ⟨id, hslots, hold, hopen⟩
  · refine ⟨?_, ⟨ids, fun i => ?_, ?_⟩, ?_⟩
    · rw [hkeeps.capacity, hcapacity, hsettings]
    · rw [hids, hkeeps.opens]
    · rw [hcard, hkeeps.held]
    · rw [hkeeps.held, hkeeps.capacity]
      exact hle
  · obtain ⟨hsame, hheld, hlt⟩ := Slots.acquire?_eq_some hslots
    have hfree : id ∉ ids := fun hmem => hnew ((hids id).1 hmem)
    refine ⟨?_, ⟨insert id ids, fun i => ?_, ?_⟩, ?_⟩
    · rw [hsame, hcapacity, hsettings]
    · rw [Finset.mem_insert, hids, hopen]
    · rw [Finset.card_insert_of_notMem hfree, hcard, hheld]
    · omega
  · have hmem : id ∈ ids := (hids id).2 hold
    refine ⟨?_, ⟨ids.erase id, fun i => ?_, ?_⟩, ?_⟩
    · rw [hslots, hsettings]
      exact hcapacity
    · rw [Finset.mem_erase, hids, hopen]
    · rw [Finset.card_erase_of_mem hmem, hcard, hslots]
      rfl
    · rw [hslots]
      exact Nat.le_trans (Nat.sub_le _ _) hle

theorem Step.closed (hstep : c.Step l d c') (h : c.slots.closed = true) :
    c'.slots.closed = true ∧ ∀ i, c'.Open i → c.Open i := by
  rcases hstep.slots_cases with hkeeps | ⟨id, hslots, -⟩ | ⟨id, hslots, -, hopen⟩
  · exact ⟨hkeeps.closed h, fun i => (hkeeps.opens i).1⟩
  · rw [Slots.acquire?, if_pos (.inl h)] at hslots
    cases hslots
  · rw [hslots]
    exact ⟨h, fun i hi => ((hopen i).1 hi).2⟩

/-! ## Reservations -/

def Awaits (c : Core) (p : Score) : Prop :=
  ∃ i w, c.writes i = some w ∧ w.phase.Holds ∧ w.score = p

theorem awaits_setWrite {p : Score} {v : Option Write} (h : c.Awaits p)
    (hid : ∀ w, c.writes id = some w → w.phase.Holds → w.score = p →
      ∃ u, v = some u ∧ u.phase.Holds ∧ u.score = p) : (c.setWrite id v).Awaits p := by
  obtain ⟨i, w, hw, hholds, hscore⟩ := h
  by_cases hi : i = id
  · subst hi
    obtain ⟨u, rfl, hu⟩ := hid w hw hholds hscore
    exact ⟨i, u, if_pos rfl, hu⟩
  · exact ⟨i, w, (if_neg hi).trans hw, hholds, hscore⟩

def Accounted (c : Core) : Prop :=
  ∀ p ∈ c.clock.pending, c.Awaits p

theorem Accounted.step (h : c.Accounted) (hstep : c.Step l d c') : c'.Accounted := by
  -- A reservation that ends takes its score away, so no other write has to answer for it.
  have hrelease : ∀ {id : Nat} {w : Write} {v : Option Write}, c.writes id = some w →
      ({ c with clock := c.clock.release w.score }.setWrite id v).Accounted := by
    intro id w v hw p hp
    obtain ⟨hpending, hne⟩ := Clock.mem_pending_release.1 hp
    refine awaits_setWrite (h p hpending) fun w' hw' _ hscore => ?_
    have hsame : w' = w := Option.some.inj (hw'.symm.trans hw)
    exact absurd (hsame ▸ hscore).symm hne
  have hlater : ∀ {id : Nat} {w : Write} {v : Option Write} {st : Store} {slots : Slots},
      c.writes id = some w → ¬ w.phase.Holds →
      ({ c with store := st, slots }.setWrite id v).Accounted := by
    intro id w v st slots hw hphase p hp
    refine awaits_setWrite (h p hp) fun w' hw' hholds _ => ?_
    have hsame : w' = w := Option.some.inj (hw'.symm.trans hw)
    exact absurd (hsame ▸ hholds) hphase
  have hkeep : ∀ {id : Nat} {w : Write} {phase : WritePhase} {st : Store},
      c.writes id = some w → phase.Holds →
      ({ c with store := st }.setWrite id (some { w with phase })).Accounted := by
    intro id w phase st hw hphase p hp
    refine awaits_setWrite (h p hp) fun w' hw' _ hscore => ?_
    have hsame : w' = w := Option.some.inj (hw'.symm.trans hw)
    exact ⟨_, rfl, hphase, hsame ▸ hscore⟩
  cases hstep with
  | stamp id d hfree =>
    intro p hp
    rcases Clock.mem_pending_reserve.1 hp with rfl | hp
    · exact ⟨id, c.writeOf d, if_pos rfl, trivial, rfl⟩
    · refine awaits_setWrite (h p hp) fun w hw => ?_
      have hnone : c.writes id = some w := hw
      rw [hfree] at hnone
      cases hnone
  | land hw hp => exact hkeep hw trivial
  | fail f hw hp => exact hkeep hw trivial
  | release hw hp => exact hrelease hw
  | trim hw hp => exact hlater hw (by rw [hp]; exact id)
  | skip hw hp => exact hlater hw (by rw [hp]; exact id)
  | finish hw hp => exact hlater hw (by rw [hp]; exact id)
  | abandon hw hb hp => exact hrelease hw
  | forget hw hb hp => exact hlater hw hp
  | _ => exact h

end Core

namespace Service

variable {s : Service}

/-! ## Reachable services -/

theorem Reachable.balanced (h : s.Reachable) : s.core.Balanced := by
  refine h.invariant (fun hstart => ?_) fun _ => Core.Balanced.step
  obtain ⟨slots, hslots, rfl⟩ := Option.map_eq_some_iff.1 hstart
  unfold Slots.ofCapacity? at hslots
  split at hslots
  · cases hslots
    exact ⟨rfl, ⟨∅, fun i => by simp [Core.Open, core, isOpenWrite], rfl⟩, Nat.zero_le _⟩
  · cases hslots

theorem Reachable.accounted (h : s.Reachable) : s.core.Accounted := by
  refine h.invariant (fun hstart => ?_) fun _ => Core.Accounted.step
  obtain ⟨slots, rfl⟩ := start?_eq_some hstart
  exact fun p hp => absurd hp List.not_mem_nil

theorem open_iff (s : Service) (i : Nat) :
    s.core.Open i ↔ ∃ u, s.tasks[i]? = some u ∧ u.isOpenBackgroundWrite = true := by
  change isOpenWrite (s.tasks[i]?.bind Task.write?) = true ↔ _
  cases hu : s.tasks[i]? with
  | none => simp [isOpenWrite]
  | some u => cases u <;> simp [isOpenWrite, Task.write?, Task.isOpenBackgroundWrite]

theorem Reachable.held_eq (h : s.Reachable) :
    s.slots.held = s.tasks.countP Task.isOpenBackgroundWrite := by
  obtain ⟨ids, hids, hcard⟩ := h.balanced.held
  let found := s.tasks.toList.findIdxs Task.isOpenBackgroundWrite
  have hset : ids = found.toFinset := by
    ext i
    rw [hids, open_iff, List.mem_toFinset, List.mem_findIdxs_iff_exists_getElem_pos]
    simp [Array.getElem?_eq_some_iff]
  have hheld : ids.card = s.slots.held := hcard
  rw [← hheld, hset, List.toFinset_card_of_nodup List.nodup_findIdxs, List.length_findIdxs,
    Array.countP_toList]

theorem Reachable.mem_pending (h : s.Reachable) (hcal : s.clock.last ≤ Timestamp.latest.score)
    {p : Score} (hp : s.core.Awaits p) : p ∈ s.clock.pending := by
  obtain ⟨settings, ids, wall, s₀, ms, hstart, rfl⟩ := h
  obtain ⟨i, w, hw, hholds, rfl⟩ := hp
  exact (sound_run (sound_start? hstart) (linked_start? hstart) hcal).pending i w hw hholds

def Quiet (s : Service) : Prop :=
  ∀ i, ¬ s.core.Open i

theorem countP_open_eq_zero (h : s.Quiet) : s.tasks.countP Task.isOpenBackgroundWrite = 0 := by
  refine Array.countP_eq_zero.2 fun u hu hopen => ?_
  obtain ⟨i, hi⟩ := Array.mem_iff_getElem?.1 hu
  exact h i ((s.open_iff i).2 ⟨u, hi, hopen⟩)

theorem Reachable.inFlight_eq_zero (hs : s.Reachable) (h : s.Quiet) : s.slots.inFlight = 0 := by
  have hle : s.slots.held ≤ s.slots.capacity := hs.balanced.held_le
  rw [Slots.inFlight_eq_held hle, hs.held_eq, countP_open_eq_zero h]

/-- No write is under way: all have ended, or have been left by their callers. -/
def Idle (s : Service) : Prop :=
  ∀ (i : Nat) (w : Write), s.tasks[i]? = some (.write w) → (Task.write w).isFinished = true

theorem Idle.quiet (h : s.Idle) : s.Quiet := by
  intro i hopen
  obtain ⟨u, hu, hopen⟩ := (s.open_iff i).1 hopen
  cases u with
  | write w => simp [Task.isOpenBackgroundWrite, h i w hu] at hopen
  | _ => cases hopen

theorem Idle.pending_eq_nil (h : s.Idle) (hs : s.Reachable) : s.clock.pending = [] := by
  refine List.eq_nil_iff_forall_not_mem.2 fun p hp => ?_
  obtain ⟨i, w, hw, hholds, -⟩ := hs.accounted p hp
  obtain ⟨u, hu, hwrite⟩ := Option.bind_eq_some_iff.1 hw
  cases u with
  | write v =>
    cases hwrite
    have hfinished := h i w hu
    obtain ⟨key, event, score, background, phase⟩ := w
    cases phase with
    | appending | releasing => cases hfinished
    | trimming | ending | finished => exact hholds
  | _ => cases hwrite

/-- **Slots and reservations are conserved.** Free slots and background writes that have not ended
make up the pool, and every pending score is held by a write whose append has not returned; as long
as the calendar reaches, the scores of all such writes are pending. So once no write is under way no
slot is taken, nothing is pending, and the horizon lies above all that is stored. -/
theorem slots_and_reservations_conserved {s : Service} (hs : s.Reachable) :
    s.slots.available + s.tasks.countP Task.isOpenBackgroundWrite = s.settings.writeSlots ∧
    (∀ p ∈ s.clock.pending, s.core.Awaits p) ∧
    (s.clock.last ≤ Timestamp.latest.score → ∀ p, p ∈ s.clock.pending ↔ s.core.Awaits p) ∧
    (s.Idle → s.slots.inFlight = 0 ∧ s.clock.pending = [] ∧
      ∀ key, ∀ e ∈ s.store.entries key, e.score ≤ s.clock.horizon s.wall) := by
  have hcapacity : s.slots.capacity = s.settings.writeSlots := hs.balanced.capacity
  have hle : s.slots.held ≤ s.slots.capacity := hs.balanced.held_le
  refine ⟨?_, hs.accounted, fun hcal p => ⟨hs.accounted p, hs.mem_pending hcal⟩, fun hidle => ?_⟩
  · rw [← hs.held_eq, ← hcapacity, Slots.available]
    omega
  · have hpending := hidle.pending_eq_nil hs
    refine ⟨hs.inFlight_eq_zero hidle.quiet, hpending, fun key e he => ?_⟩
    have hlast := (hs.stamped.entry key e he).2.1
    rw [Clock.horizon_of_pending_eq_nil hpending]
    exact Int.le_trans hlast (Int.le_max_right _ _)

/-- Of three orders one is written, the append of another has failed, and the caller of the third,
which found no slot, has left it. -/
theorem slots_and_reservations_conserved_amid_failures :
    let s := (sample { writeSlots := 2 } 1000).run [.publish (.newOrder "a" "x" "1"),
      .publish (.newOrder "b" "x" "1"), .publish (.newOrder "c" "x" "1"), .advance 0 .done,
      .advance 0 .done, .advance 1 (.failed (.unavailable "down")), .drop 2]
    s.slots.available = 0 ∧ 0 + s.tasks.countP Task.isOpenBackgroundWrite = 2 ∧
      s.clock.pending = [1001] ∧ ∀ p, p ∈ s.clock.pending ↔ s.core.Awaits p := by
  intro s
  have hs : s.Reachable := ⟨{ writeSlots := 2 }, sampleIds, 1000, _, _,
    start?_sample (by decide) 1000, rfl⟩
  have hall := slots_and_reservations_conserved hs
  have hfree : s.slots.available = 0 := by decide +kernel
  have hopen := hall.1
  rw [hfree] at hopen
  exact ⟨hfree, hopen, by decide +kernel, hall.2.2.1 (by decide +kernel)⟩

/-- Two orders are stamped at the last microsecond of the calendar. Their scores are the same, so
the reservation of the second ends with that of the first. -/
theorem pending_misses_write :
    ¬ ∀ s : Service, s.Reachable → ∀ p, p ∈ s.clock.pending ↔ s.core.Awaits p := by
  intro hall
  have hmem := (hall _ (reachable_sample 8210266876799999999
    [.publish (.newOrder "a" "x" "1"), .publish (.newOrder "b" "x" "1"), .advance 0 .done,
      .advance 0 .done]) 8210266876799999999).2 ⟨1, _, rfl, trivial, by decide +kernel⟩
  exact absurd hmem (by decide +kernel)

end Service

end NotificationQueue
