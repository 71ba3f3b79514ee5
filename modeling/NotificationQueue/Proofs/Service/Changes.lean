import NotificationQueue.Proofs.Service.Core
import NotificationQueue.Proofs.Store.Trimming

/-!
How a service changes its store. A move makes at most one call that changes it: the append or the
trim of a write, the sweep of a queue, or a purge. The store after a run is the one after the calls
of the run, so that what holds after all calls holds however tasks take turns.
-/
namespace NotificationQueue
set_option autoImplicit false

/-! ## Calls of moves -/

/-- The call by which a task changes the store when it is answered. -/
def Task.change? (settings : QueueSettings) : Answer → Task → Option Store.Call
  | .done, .write w =>
    match w.phase with
    | .appending => some (.append w.key w.score w.event)
    | .trimming => some (.trim w.key settings.pageSize)
    | _ => none
  | .done, .sweep key false => some (.expire key settings.retention)
  | .done, .purger p =>
    match p.phase with
    | .purging _ => some .purge
    | _ => none
  | _, _ => none

namespace Service

variable {s t : Service} {c : Option Store.Call}

def change? (s : Service) : Move → Option Store.Call
  | .advance id a => s.tasks[id]?.bind (Task.change? s.settings a)
  | _ => none

def changes (s : Service) : List Move → List (Score × Store.Call)
  | [] => []
  | m :: ms => (s.change? m).toList.map (s.wall, ·) ++ (s.move m).changes ms

structure Changed (s : Service) (c : Option Store.Call) (t : Service) : Prop where
  settings : t.settings = s.settings
  store : t.store = s.store.after (c.toList.map (s.wall, ·))

theorem Changed.of_core (h : t.core = s.core) : s.Changed none t :=
  ⟨congrArg Core.settings h, congrArg Core.store h⟩

theorem changed_submit (s : Service) (d : Draft) : s.Changed none (s.submit d).1 := by
  unfold submit
  dsimp only
  split
  · exact ⟨rfl, rfl⟩
  · exact ⟨rfl, rfl⟩

theorem changed_drop (s : Service) (id : Nat) : s.Changed none (s.drop id) := by
  unfold drop
  split
  · split
    · exact ⟨rfl, rfl⟩
    · split
      · exact ⟨rfl, rfl⟩
      · exact ⟨rfl, rfl⟩
      · exact ⟨rfl, rfl⟩
  · exact ⟨rfl, rfl⟩
  · exact ⟨rfl, rfl⟩
  · exact ⟨rfl, rfl⟩

theorem changed_advanceWrite (s : Service) (id : Nat) (w : Write) (a : Answer) :
    s.Changed ((Task.write w).change? s.settings a) (s.advanceWrite id w a) := by
  obtain ⟨key, event, score, background, phase⟩ := w
  cases phase with
  | appending => cases a <;> exact ⟨rfl, rfl⟩
  | releasing r => cases r <;> cases a <;> exact ⟨rfl, rfl⟩
  | trimming => cases a <;> exact ⟨rfl, rfl⟩
  | ending r => cases background <;> cases a <;> exact ⟨rfl, rfl⟩
  | finished r => cases a <;> exact ⟨rfl, rfl⟩

theorem changed_advancePurger (s : Service) (id : Nat) (p : Purger) (a : Answer) :
    s.Changed ((Task.purger p).change? s.settings a) (s.advancePurger id p a) := by
  obtain ⟨interval, cancelled, phase⟩ := p
  cases phase with
  | waiting due =>
    have hnone : (Task.purger ⟨interval, cancelled, .waiting due⟩).change? s.settings a = none := by
      cases a <;> rfl
    rw [hnone]
    unfold advancePurger
    dsimp only
    split
    · exact ⟨rfl, rfl⟩
    · split
      · exact ⟨rfl, rfl⟩
      · exact ⟨rfl, rfl⟩
  | starting | purging | stopped | crashed => cases a <;> exact ⟨rfl, rfl⟩

theorem changed_advance (s : Service) (id : Nat) (a : Answer) :
    s.Changed (s.change? (.advance id a)) (s.advance id a) := by
  change s.Changed (s.tasks[id]?.bind (Task.change? s.settings a)) _
  unfold advance
  cases hu : s.tasks[id]? with
  | none => exact ⟨rfl, rfl⟩
  | some u =>
    rw [Option.bind_some]
    cases u with
    | write w => exact changed_advanceWrite s id w a
    | purger p => exact changed_advancePurger s id p a
    | sweep key finished => cases finished <;> cases a <;> exact ⟨rfl, rfl⟩
    | read r => cases a <;> exact .of_core (core_advanceRead hu _)
    | ticker k => cases a <;> exact .of_core (core_advanceTicker hu _)
    | waiter w => cases a <;> exact .of_core (core_advanceWaiter hu)
    | probe p => cases a <;> exact .of_core (core_advanceProbe hu _)
    | drain d => cases a <;> exact .of_core (core_advanceDrain hu)
    | gone => cases a <;> exact ⟨rfl, rfl⟩

/-- **A move changes the store by one call at most.** -/
theorem changed_move (s : Service) (m : Move) : s.Changed (s.change? m) (s.move m) := by
  cases m with
  | publish r =>
    rw [move_publish]
    split
    · exact changed_submit s _
    · exact ⟨rfl, rfl⟩
  | poll r cancelled =>
    simp only [move]
    split
    · next after id hp => exact .of_core (core_poll? hp)
    · exact ⟨rfl, rfl⟩
  | advance id a => exact changed_advance s id a
  | cancel id => exact .of_core (core_cancel s id)
  | drop id => exact changed_drop s id
  | probe | shutdown | purgeEvery | elapse | skew => exact ⟨rfl, rfl⟩

theorem exists_landed_of_appending {id : Nat} {w : Write} (hw : s.tasks[id]? = some (.write w))
    (hphase : w.phase = .appending) :
    ∃ x ∈ (s.move (.advance id .done)).store.entries w.key, x.event = w.event := by
  have hstore := (s.changed_move (.advance id .done)).store
  have hc : s.change? (.advance id .done) = some (.append w.key w.score w.event) := by
    simp only [change?, hw, Option.bind_some, Task.change?, hphase]
  rw [hc] at hstore
  have hcall : (s.move (.advance id .done)).store =
      s.store.append w.key w.score w.event s.wall := hstore
  rw [hcall, Store.entries_append, if_pos rfl]
  exact ⟨_, Queue.mem_insertEntry.2 (.inl rfl), rfl⟩

/-! ## Calls of runs -/

theorem settings_run (s : Service) (ms : List Move) : (s.run ms).settings = s.settings := by
  induction ms generalizing s with
  | nil => rfl
  | cons m ms ih => exact (ih (s.move m)).trans (s.changed_move m).settings

/-- **The store after a run is the one after its calls.** -/
theorem store_run (s : Service) (ms : List Move) :
    (s.run ms).store = s.store.after (s.changes ms) := by
  induction ms generalizing s with
  | nil => rfl
  | cons m ms ih =>
    rw [run_cons, ih, (s.changed_move m).store, changes, Store.after_append]

theorem change?_cases {m : Move} {c : Store.Call} (h : s.change? m = some c) :
    (∃ i w, m = .advance i .done ∧ s.tasks[i]? = some (.write w) ∧ w.phase = .appending ∧
      c = .append w.key w.score w.event) ∨
    (∃ key, c = .trim key s.settings.pageSize) ∨ (∃ key, c = .expire key s.settings.retention) ∨
    c = .purge := by
  cases m with
  | advance i a =>
    obtain ⟨u, hu, hc⟩ := Option.bind_eq_some_iff.1 h
    unfold Task.change? at hc
    split at hc
    · next w =>
      split at hc <;> cases hc
      · next hp => exact .inl ⟨i, w, rfl, hu, hp, rfl⟩
      · exact .inr (.inl ⟨w.key, rfl⟩)
    · next key =>
      cases hc
      exact .inr (.inr (.inl ⟨key, rfl⟩))
    · split at hc <;> cases hc
      exact .inr (.inr (.inr rfl))
    · cases hc
  | _ => cases h

theorem keep_of_change? {m : Move} {key : String} {n : Nat}
    (h : s.change? m = some (.trim key n)) : n = s.settings.pageSize := by
  rcases change?_cases h with ⟨i, w, -, -, -, hc⟩ | ⟨k, hc⟩ | ⟨k, hc⟩ | hc <;> cases hc
  rfl

theorem trimsTo_changes (s : Service) (key : String) (ms : List Move) :
    Store.TrimsTo key s.settings.pageSize (s.changes ms) := by
  induction ms generalizing s with
  | nil => exact fun x hx => absurd hx List.not_mem_nil
  | cons m ms ih =>
    intro x hx n hn
    rw [changes, List.mem_append] at hx
    rcases hx with hx | hx
    · obtain ⟨c, hc, rfl⟩ := List.mem_map.1 hx
      obtain rfl : c = .trim key n := hn
      exact keep_of_change? (Option.mem_toList.1 hc)
    · have hkeep := ih (s.move m) x hx n hn
      rw [hkeep, (s.changed_move m).settings]

/-! ## What trimming leaves -/

theorem length_entries_run_le {key : String} (hs : s.store.Sound)
    (hempty : s.store.entries key = []) (ms : List Move) :
    ((s.run ms).store.entries key).length ≤
      Queue.most s.settings.pageSize + Store.untrimmed key (s.changes ms) := by
  have hshort : (s.store.entries key).length ≤ Queue.most s.settings.pageSize + 0 := by
    rw [hempty]
    exact Nat.zero_le _
  have hlength := Store.length_after_le hs (s.trimsTo_changes key ms) hshort
  rwa [ite_self, Nat.add_zero, ← store_run] at hlength

/-- **A queue that only trims cut holds the highest entries ever appended to it**, a page of them or
all there are, in whatever order they land. A trim cuts the front off, and beyond twice a page the
queue holds as many entries at most as have landed since the last trim. -/
theorem keeps_newest_page {s : Service} {key : String} (hs : s.store.Sound)
    (hempty : s.store.entries key = []) (ms : List Move)
    (hquiet : s.store.undisturbed key (s.changes ms) = true) :
    let landed := s.store.landed key (s.changes ms)
    let kept := (s.run ms).store.entries key
    kept.Pairwise Entry.Precedes ∧ (∀ e ∈ kept, e ∈ landed) ∧
      (∀ e ∈ landed, landed.countP (fun x => e.Precedes x) < s.settings.pageSize → e ∈ kept) ∧
      (∀ m n, (s.run ms).change? m = some (.trim key n) →
        ((s.run ms).move m).store.entries key <:+ kept) ∧
      kept.length ≤ 2 * s.settings.pageSize + Store.untrimmed key (s.changes ms) := by
  intro landed kept
  have hstart : s.store.Retains key s.settings.pageSize [] := by
    refine ⟨hs, fun e he => ?_, nofun⟩
    rw [hempty] at he
    exact he
  have hretains := hstart.after hquiet (s.trimsTo_changes key ms)
  rw [List.nil_append, ← store_run] at hretains
  have hlength := length_entries_run_le hs hempty ms
  have hmost := Queue.most_le s.settings.pageSize
  refine ⟨hretains.sound.sorted key, hretains.appended, hretains.highest, fun m n hm => ?_, ?_⟩
  · have hstore := ((s.run ms).changed_move m).store
    rw [hm] at hstore
    have htrim : ((s.run ms).move m).store = ((s.run ms).store.trim key n).2 := hstore
    rw [htrim, Store.entries_trim, if_pos rfl]
    exact Queue.newest_suffix n kept
  · exact Nat.le_trans hlength (Nat.add_le_add_right hmost _)

/-- The oldest of four orders lands after a trim has cut two newer ones off. -/
theorem keeps_newest_page_late_write :
    let s := sample { pageSize := 1 } 1000
    let ms := [.publish (.newOrder "a" "x" "1"), .publish (.newOrder "b" "x" "1"),
      .publish (.newOrder "c" "x" "1"), .publish (.newOrder "d" "x" "1"), .advance 1 .done,
      .advance 2 .done, .advance 3 .done, .advance 3 .done, .advance 3 .done, .advance 0 .done]
    let landed := s.store.landed Subject.admin.key (s.changes ms)
    let kept := (s.run ms).store.entries Subject.admin.key
    landed.map (·.event.entityId) = ["b", "c", "d", "a"] ∧
      kept.map (·.event.entityId) = ["a", "d"] ∧
      (∀ e ∈ landed, landed.countP (fun x => e.Precedes x) < 1 → e ∈ kept) ∧
      kept.length ≤ 2 * 1 + 1 := by
  intro s ms landed kept
  have hquiet : s.store.undisturbed Subject.admin.key (s.changes ms) = true := by decide +kernel
  have hall := keeps_newest_page Store.sound_empty rfl ms hquiet
  have huntrimmed : Store.untrimmed Subject.admin.key (s.changes ms) = 1 := by decide +kernel
  have hlength : kept.length ≤ 2 * 1 + Store.untrimmed Subject.admin.key (s.changes ms) :=
    hall.2.2.2.2
  rw [huntrimmed] at hlength
  exact ⟨by decide +kernel, by decide +kernel, hall.2.2.1, hlength⟩

end Service

end NotificationQueue
