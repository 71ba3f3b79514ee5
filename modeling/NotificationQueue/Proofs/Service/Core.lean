import NotificationQueue.Proofs.Service.Moves

/-!
The part of a service that readers do not change: its store, its clock, its slots and its writes. A
move of the service is one step of this part, whatever else is under way, so that what holds of the
steps holds of every interleaving.
-/
namespace NotificationQueue
set_option autoImplicit false

/-! ## The core and its steps -/

structure Core where
  settings : QueueSettings
  ids : Nat → Uuid
  store : Store
  clock : Clock
  slots : Slots
  wall : Score
  issued : Nat
  writes : Nat → Option Write

def Task.write? : Task → Option Write
  | .write w => some w
  | _ => none

def Service.core (s : Service) : Core where
  settings := s.settings
  ids := s.ids
  store := s.store
  clock := s.clock
  slots := s.slots
  wall := s.wall
  issued := s.issued
  writes id := s.tasks[id]?.bind Task.write?

/-- A write whose reservation ends goes on to trim its queue, if its append did not fail. -/
def WritePhase.released : Except StoreFault Unit → WritePhase
  | .ok () => .trimming
  | .error f => .ending (.error f)

/-- A write holds a reservation until the store has answered its append and it has gone on. -/
def WritePhase.Holds : WritePhase → Prop
  | .appending | .releasing _ => True
  | _ => False

namespace Core

def setWrite (c : Core) (id : Nat) (w : Option Write) : Core :=
  { c with writes := fun i => if i = id then w else c.writes i }

def notice (c : Core) (d : Draft) : Notice :=
  ⟨d.subject, d.event (c.ids c.issued) (c.clock.reserve c.wall).1 c.settings.retention.seconds⟩

def writeOf (c : Core) (d : Draft) : Write :=
  ⟨d.subject.key, (c.notice d).event, (c.clock.reserve c.wall).1, c.slots.acquire?.isSome,
    .appending⟩

def stamp (c : Core) (id : Nat) (d : Draft) : Core :=
  { c with
    clock := (c.clock.reserve c.wall).2
    issued := c.issued + 1
    slots := c.slots.acquire?.getD c.slots }.setWrite id (some (c.writeOf d))

def land (c : Core) (id : Nat) (w : Write) : Core :=
  { c with store := c.store.append w.key w.score w.event c.wall }.setWrite id
    (some { w with phase := .releasing (.ok ()) })

/-- One step of a core, what it publishes, and by how many microseconds the wall clock moves. -/
inductive Step (c : Core) : Option Notice → Int → Core → Prop
  | idle : Step c none 0 c
  | stamp (id : Nat) (d : Draft) (hfree : c.writes id = none) :
    Step c (some (c.notice d)) 0 (c.stamp id d)
  | land {id : Nat} {w : Write} (hw : c.writes id = some w) (hp : w.phase = .appending) :
    Step c none 0 (c.land id w)
  | fail {id : Nat} {w : Write} (f : StoreFault) (hw : c.writes id = some w)
    (hp : w.phase = .appending) :
    Step c none 0 (c.setWrite id (some { w with phase := .releasing (.error f) }))
  | release {id : Nat} {w : Write} {r : Except StoreFault Unit} (hw : c.writes id = some w)
    (hp : w.phase = .releasing r) :
    Step c none 0 ({ c with clock := c.clock.release w.score }.setWrite id
      (some { w with phase := .released r }))
  | trim {id : Nat} {w : Write} (hw : c.writes id = some w) (hp : w.phase = .trimming) :
    Step c none 0 ({ c with store := (c.store.trim w.key c.settings.pageSize).2 }.setWrite id
      (some { w with phase := .ending (.ok ()) }))
  | skip {id : Nat} {w : Write} (hw : c.writes id = some w) (hp : w.phase = .trimming) :
    Step c none 0 (c.setWrite id (some { w with phase := .ending (.ok ()) }))
  | finish {id : Nat} {w : Write} {r : Except StoreFault Unit} (hw : c.writes id = some w)
    (hp : w.phase = .ending r) :
    Step c none 0 ({ c with
      slots := if w.background then c.slots.release else c.slots }.setWrite id
        (some { w with phase := .finished r }))
  | abandon {id : Nat} {w : Write} (hw : c.writes id = some w) (hb : w.background = false)
    (hp : w.phase.Holds) :
    Step c none 0 ({ c with clock := c.clock.release w.score }.setWrite id none)
  | forget {id : Nat} {w : Write} (hw : c.writes id = some w) (hb : w.background = false)
    (hp : ¬ w.phase.Holds) : Step c none 0 (c.setWrite id none)
  | sweep (key : String) :
    Step c none 0 { c with store := (c.store.expire key c.settings.retention c.wall).2 }
  | purge : Step c none 0 { c with store := (c.store.purge c.wall).2 }
  | close : Step c none 0 { c with slots := c.slots.close }
  | pass (micros : Int) : Step c none micros { c with wall := c.wall + micros }

variable {c c' : Core} {l : Option Notice} {d : Int}

theorem setWrite_self {id : Nat} {w : Option Write} (h : c.writes id = w) :
    c.setWrite id w = c := by
  have hwrites : (fun i => if i = id then w else c.writes i) = c.writes := by
    funext i
    split
    · next hi => rw [hi, h]
    · rfl
  rw [setWrite, hwrites]

theorem writes_setWrite {id i : Nat} {w : Option Write} {v : Write}
    (h : (c.setWrite id w).writes i = some v) :
    (i = id ∧ w = some v) ∨ (i ≠ id ∧ c.writes i = some v) := by
  simp only [setWrite] at h
  split at h
  · next hi => exact .inl ⟨hi, h⟩
  · next hi => exact .inr ⟨hi, h⟩

theorem Step.settings (h : c.Step l d c') : c'.settings = c.settings := by
  cases h <;> rfl

theorem Step.ids (h : c.Step l d c') : c'.ids = c.ids := by
  cases h <;> rfl

theorem Step.wall (h : c.Step l d c') : c'.wall = c.wall + d := by
  cases h with
  | pass => rfl
  | _ => exact (Int.add_zero _).symm

theorem Step.wall_le (h : c.Step l d c') (hd : 0 ≤ d) : c.wall ≤ c'.wall := by
  rw [h.wall]
  exact Int.le_add_of_nonneg_right hd

end Core

namespace Service

variable {s t : Service}

/-! ## Changes of tasks, seen from the core -/

theorem core_setTask {id : Nat} {u : Task} (h : s.tasks[id]? = some u) (v : Task) :
    (s.setTask id v).core = s.core.setWrite id v.write? := by
  have hwrites : (fun i => (s.setTask id v).tasks[i]?.bind Task.write?) =
      fun i => if i = id then v.write? else s.tasks[i]?.bind Task.write? := by
    funext i
    rw [setTask_getElem?]
    by_cases hi : i = id
    · rw [if_pos hi, if_pos hi, hi, h]
      rfl
    · rw [if_neg hi, if_neg hi]
  simp only [core, Core.setWrite, hwrites]
  rfl

theorem core_spawn (s : Service) (v : Task) :
    (s.spawn v).core = s.core.setWrite s.tasks.size v.write? := by
  have hwrites : (fun i => (s.spawn v).tasks[i]?.bind Task.write?) =
      fun i => if i = s.tasks.size then v.write? else s.tasks[i]?.bind Task.write? := by
    funext i
    rw [spawn_getElem?]
    split <;> rfl
  simp only [core, Core.setWrite, hwrites]
  rfl

theorem core_writes_size (s : Service) : s.core.writes s.tasks.size = none := by
  simp [core]

theorem core_writes {id : Nat} {u : Task} (h : s.tasks[id]? = some u) :
    s.core.writes id = u.write? := by
  simp [core, h]

theorem core_setTask_of_none {id : Nat} {u v : Task} (h : s.tasks[id]? = some u)
    (hu : u.write? = none) (hv : v.write? = none) : (s.setTask id v).core = s.core := by
  rw [core_setTask h, Core.setWrite_self]
  rw [core_writes h, hu, hv]

theorem core_spawn_of_none {v : Task} (hv : v.write? = none) : (s.spawn v).core = s.core := by
  rw [core_spawn, Core.setWrite_self]
  rw [core_writes_size, hv]

theorem core_sweepAfter (s : Service) (query : Query) (phase : ReadPhase) :
    (s.sweepAfter query phase).core = s.core := by
  unfold sweepAfter
  split
  · exact core_spawn_of_none rfl
  · rfl

/-! ## Moves are steps of the core -/

theorem core_submit (s : Service) (d : Draft) :
    (s.submit d).1.core = s.core.stamp s.tasks.size d := by
  unfold submit
  dsimp only
  split
  · next slots h =>
    rw [core_spawn]
    simp only [Core.stamp, Core.writeOf, core, h]
    rfl
  · next h =>
    rw [core_spawn]
    simp only [Core.stamp, Core.writeOf, core, h]
    rfl

theorem step_submit (s : Service) (d : Draft) :
    s.core.Step (some (s.notice d)) 0 (s.submit d).1.core := by
  rw [core_submit]
  exact .stamp s.tasks.size d (core_writes_size s)

theorem step_advanceWrite {id : Nat} {w : Write} (h : s.tasks[id]? = some (.write w))
    (a : Answer) : s.core.Step none 0 (s.advanceWrite id w a).core := by
  have hw : s.core.writes id = some w := core_writes h
  have hto : ∀ {t : Service} (v : Write), t.tasks[id]? = some (.write w) →
      (t.setTask id (.write v)).core = t.core.setWrite id (some v) := fun v ht => core_setTask ht _
  unfold advanceWrite
  dsimp only
  split
  · next hp =>
    cases a with
    | waiting => exact .idle
    | failed f =>
      rw [hto _ h]
      exact .fail f hw hp
    | done =>
      rw [hto _ (by exact h)]
      exact .land hw hp
  · next result hp =>
    have hrelease := Core.Step.release hw hp
    split
    · rw [hto _ (by exact h)]
      exact hrelease
    · rw [hto _ (by exact h)]
      exact hrelease
  · next hp =>
    cases a with
    | waiting => exact .idle
    | failed f =>
      rw [hto _ h]
      exact .skip hw hp
    | done =>
      rw [hto _ (by exact h)]
      exact .trim hw hp
  · next result hp =>
    have hfinish := Core.Step.finish hw hp
    split
    · next hb =>
      rw [if_pos hb] at hfinish
      rw [hto _ (by exact h)]
      exact hfinish
    · next hb =>
      rw [if_neg hb] at hfinish
      rw [hto _ (by exact h)]
      exact hfinish
  · exact .idle

theorem core_advanceRead {id : Nat} {r : Read} (h : s.tasks[id]? = some (.read r))
    (a : Answer) : (s.advanceRead id r a).core = s.core := by
  unfold advanceRead
  split
  · rfl
  · rw [core_sweepAfter]
    exact core_setTask_of_none h rfl rfl

theorem core_advanceTicker {id : Nat} {k : Ticker} (h : s.tasks[id]? = some (.ticker k))
    (a : Answer) : (s.advanceTicker id k a).core = s.core := by
  unfold advanceTicker
  dsimp only
  split
  · split
    · rw [core_sweepAfter]
      exact core_setTask_of_none h rfl rfl
    · exact core_setTask_of_none h rfl rfl
  · exact core_setTask_of_none h rfl rfl

theorem core_leave {id i : Nat} {u v k : Task} (h : s.tasks[id]? = some u)
    (hu : u.write? = none) (hv : v.write? = none) (hk : s.tasks[i]? = some k)
    (hloop : k.IsLoop) : ((s.setTask i .gone).setTask id v).core = s.core := by
  have hkw : k.write? = none := by
    cases k <;> first | rfl | exact hloop.elim
  have hfirst : (s.setTask i .gone).core = s.core := core_setTask_of_none hk hkw rfl
  have hsome : (s.setTask i .gone).tasks[id]? = some (if id = i then .gone else u) := by
    rw [setTask_getElem?, h]
    split <;> rfl
  have hnone : (if id = i then Task.gone else u).write? = none := by
    split
    · rfl
    · exact hu
  rw [core_setTask_of_none hsome hnone hv, hfirst]

theorem core_advanceWaiter {id : Nat} {w : Waiter} (h : s.tasks[id]? = some (.waiter w)) :
    (s.advanceWaiter id w).core = s.core := by
  unfold advanceWaiter
  dsimp only
  split
  · rfl
  · split
    · next k hk =>
      split
      · exact core_leave h rfl rfl hk trivial
      · split
        · exact core_leave h rfl rfl hk trivial
        · rfl
    · rfl

theorem core_advanceProbe {id : Nat} {p : Probe} (h : s.tasks[id]? = some (.probe p))
    (a : Answer) : (s.advanceProbe id p a).core = s.core := by
  have hto : ∀ v : Probe, (s.setTask id (.probe v)).core = s.core :=
    fun v => core_setTask_of_none h rfl rfl
  unfold advanceProbe
  dsimp only
  split
  · rfl
  · exact hto _
  · exact hto _
  · split
    · exact hto _
    · rfl

theorem core_advanceDrain {id : Nat} {d : Drain} (h : s.tasks[id]? = some (.drain d)) :
    (s.advanceDrain id d).core = s.core := by
  have hto : ∀ v : Drain, (s.setTask id (.drain v)).core = s.core :=
    fun v => core_setTask_of_none h rfl rfl
  unfold advanceDrain
  dsimp only
  split
  · rfl
  · split
    · exact hto _
    · split
      · exact hto _
      · rfl

theorem step_advancePurger {id : Nat} {p : Purger} (h : s.tasks[id]? = some (.purger p))
    (a : Answer) : s.core.Step none 0 (s.advancePurger id p a).core := by
  have hto : ∀ {t : Service} (v : Purger), t.tasks[id]? = some (.purger p) →
      (t.setTask id (.purger v)).core = t.core := fun v ht => core_setTask_of_none ht rfl rfl
  unfold advancePurger
  dsimp only
  split
  · rw [hto _ h]
    exact .idle
  · split
    · rw [hto _ h]
      exact .idle
    · split
      · exact .idle
      · rw [hto _ h]
        exact .idle
  · cases a with
    | waiting => exact .idle
    | failed f =>
      rw [hto _ h]
      exact .idle
    | done =>
      rw [hto _ (by exact h)]
      exact .purge
  · exact .idle
  · exact .idle

theorem step_advance (s : Service) (id : Nat) (a : Answer) :
    s.core.Step none 0 (s.advance id a).core := by
  unfold advance
  split
  · next w h => exact step_advanceWrite h a
  · next r h =>
    rw [core_advanceRead h]
    exact .idle
  · next key h =>
    cases a with
    | waiting => exact .idle
    | failed f =>
      rw [core_setTask_of_none h rfl rfl]
      exact .idle
    | done =>
      rw [core_setTask_of_none (by exact h) rfl rfl]
      exact .sweep key
  · next k h =>
    rw [core_advanceTicker h]
    exact .idle
  · next w h =>
    rw [core_advanceWaiter h]
    exact .idle
  · next p h =>
    rw [core_advanceProbe h]
    exact .idle
  · next d h =>
    rw [core_advanceDrain h]
    exact .idle
  · next p h => exact step_advancePurger h a
  · exact .idle

theorem core_cancel (s : Service) (id : Nat) : (s.cancel id).core = s.core := by
  unfold cancel
  split
  · next w h => exact core_setTask_of_none h rfl rfl
  · next p h => exact core_setTask_of_none h rfl rfl
  · rfl

theorem step_drop (hs : s.Linked) (id : Nat) : s.core.Step none 0 (s.drop id).core := by
  unfold drop
  split
  · next w h =>
    have hw : s.core.writes id = some w := core_writes h
    split
    · exact .idle
    · next hb =>
      have hback : w.background = false := Bool.eq_false_iff.2 hb
      have habandon : w.phase.Holds →
          s.core.Step none 0 { s.setTask id .gone with clock := s.clock.release w.score }.core := by
        intro hp
        have hcore : ({ s with clock := s.clock.release w.score }.setTask id .gone).core =
            { s.core with clock := s.core.clock.release w.score }.setWrite id none :=
          core_setTask (s := { s with clock := s.clock.release w.score }) h .gone
        have hstep := Core.Step.abandon hw hback hp
        rw [← hcore] at hstep
        exact hstep
      split
      · next hp => exact habandon (by rw [hp]; trivial)
      · next hp => exact habandon (by rw [hp]; trivial)
      · next hp hp' =>
        rw [core_setTask h]
        refine .forget hw hback fun hholds => ?_
        cases hphase : w.phase with
        | appending => exact hp hphase
        | releasing r => exact hp' r hphase
        | trimming | ending | finished =>
          rw [hphase] at hholds
          exact hholds
  · next w h =>
    obtain ⟨k, hk, hloop⟩ := hs id w h
    rw [core_leave h rfl rfl hk hloop]
    exact .idle
  · next u hwrite _ h =>
    have hnone : u.write? = none := by
      cases u with
      | write w => exact absurd rfl (hwrite w)
      | _ => rfl
    rw [core_setTask_of_none h hnone rfl]
    exact .idle
  · exact .idle

theorem core_poll? {r : PollRequest} {cancelled : Bool} {id : Nat}
    (h : s.poll? r cancelled = some (t, id)) : t.core = s.core := by
  obtain ⟨-, ⟨-, rfl⟩ | ⟨-, rfl⟩⟩ := of_poll? h
  · exact core_spawn_of_none rfl
  · rw [core_spawn_of_none rfl, core_spawn_of_none rfl]

/-- **Every move is one step of the core**, and publishes what the step publishes. -/
theorem step_move (h : s.Linked) (m : Move) :
    s.core.Step (s.posted? m) m.micros (s.move m).core := by
  cases m with
  | publish r =>
    rw [move_publish, posted?]
    split
    · next d _ => exact step_submit s d
    · exact .idle
  | poll r cancelled =>
    simp only [move, posted?]
    split
    · next after id hp =>
      rw [core_poll? hp]
      exact .idle
    · exact .idle
  | probe =>
    have hcore : s.probe.1.core = s.core := core_spawn_of_none rfl
    rw [move, hcore]
    exact .idle
  | shutdown =>
    have hcore : s.shutdown.1.core = { s.core with slots := s.core.slots.close } :=
      core_spawn_of_none rfl
    rw [move, hcore]
    exact .close
  | purgeEvery interval =>
    have hcore : (s.purgeEvery interval).1.core = s.core := core_spawn_of_none rfl
    rw [move, hcore]
    exact .idle
  | advance id a => exact step_advance s id a
  | cancel id =>
    rw [move, core_cancel]
    exact .idle
  | drop id => exact step_drop h id
  | elapse millis => exact .pass _
  | skew micros => exact .pass _

theorem wall_le_move (h : s.Linked) {m : Move} (hm : m.IsForward) : s.wall ≤ (s.move m).wall :=
  (step_move h m).wall_le hm

theorem Linked.run (h : s.Linked) (ms : List Move) : (s.run ms).Linked := by
  induction ms generalizing s with
  | nil => exact h
  | cons m ms ih => exact ih (h.move m)

theorem ids_run (h : s.Linked) (ms : List Move) : (s.run ms).ids = s.ids := by
  induction ms generalizing s with
  | nil => rfl
  | cons m ms ih => exact (ih (h.move m)).trans (step_move h m).ids

theorem wall_le_run (h : s.Linked) {ms : List Move} (hms : ∀ m ∈ ms, m.IsForward) :
    s.wall ≤ (s.run ms).wall := by
  induction ms generalizing s with
  | nil => exact Int.le_refl _
  | cons m ms ih =>
    have hfirst := wall_le_move h (hms m List.mem_cons_self)
    have hrest := ih (h.move m) fun m' hm' => hms m' (List.mem_cons_of_mem m hm')
    exact Int.le_trans hfirst hrest

end Service

end NotificationQueue
