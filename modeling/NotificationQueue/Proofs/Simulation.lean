import NotificationQueue.Proofs.Service.Horizon
import NotificationQueue.Simulation.Script

/-!
Simulations as runs. Whatever a script lets happen, the service under it makes moves and nothing
else, so that what holds of every run of a service holds of a scripted one. This leaves out what a
script does to the store by hand, and the second reader, which has sweeps done that no read of the
service has asked for.
-/
namespace NotificationQueue
set_option autoImplicit false

namespace Simulation

variable {s t u : Simulation} {id : Nat} {g : Goal}

/-- The service of one simulation comes from that of another by moves. -/
def Runs (s t : Simulation) : Prop :=
  ∃ ms, t.service = s.service.run ms

theorem Runs.trans (h : s.Runs t) (h' : t.Runs u) : s.Runs u := by
  obtain ⟨ms, hms⟩ := h
  obtain ⟨ns, hns⟩ := h'
  exact ⟨ms ++ ns, by rw [hns, hms, Service.run_append]⟩

theorem runs_of_eq (h : t.service = s.service) : s.Runs t := ⟨[], h⟩

theorem runs_of_move (m : Move) (h : t.service = s.service.move m) : s.Runs t := ⟨[m], h⟩

/-! ## Tasks -/

theorem runs_beginCall (s : Simulation) (caller : Option Nat) (call : StoreCall) :
    s.Runs (s.beginCall caller call) := by
  unfold beginCall
  dsimp only
  split <;> exact runs_of_eq rfl

theorem runs_step? (h : s.step? id = some t) : s.Runs t := by
  unfold step? at h
  split at h
  · split at h
    · cases h
      exact runs_of_move (.advance id .waiting) rfl
    · cases h
  · split at h
    · cases h
      exact runs_beginCall ..
    · split at h
      · split at h
        · cases h
          exact runs_of_move (.advance id .waiting) rfl
        · cases h
      · cases h
        exact runs_of_move (.advance id _) rfl

theorem runs_runTask (s : Simulation) (id n : Nat) : s.Runs (s.runTask id n).1 := by
  induction n generalizing s with
  | zero => exact runs_of_eq rfl
  | succ n ih =>
    unfold runTask
    cases hstep : s.step? id with
    | none => exact runs_of_eq rfl
    | some t => exact (runs_step? hstep).trans (ih t)

theorem runs_runTasks (s : Simulation) (ids : List Nat) : s.Runs (s.runTasks ids).1 := by
  induction ids generalizing s with
  | nil => exact runs_of_eq rfl
  | cons id ids ih => exact (runs_runTask s id patience).trans (ih _)

/-! ## Rounds -/

theorem runs_round (s : Simulation) (except : Option Nat) : s.Runs (s.round except).1 :=
  (runs_runTasks s _).trans (runs_of_eq rfl)

theorem runs_settle (s : Simulation) (n : Nat) : s.Runs (s.settle n) := by
  induction n generalizing s with
  | zero => exact runs_of_eq rfl
  | succ n ih =>
    unfold settle
    dsimp only
    split
    · exact (runs_round s none).trans (ih _)
    · exact runs_round s none

theorem runs_runGoal (s : Simulation) (hg : g ≠ .peer) : s.Runs (s.runGoal g) := by
  cases g with
  | task id => exact (runs_runTask s id patience).trans (runs_of_eq rfl)
  | time => exact runs_of_eq rfl
  | peer => exact absurd rfl hg

/-- **A simulation that waits for a task or a time lets its service make moves.** -/
theorem runs_await (s : Simulation) (hg : g ≠ .peer) (n : Nat) : s.Runs (s.await g n) := by
  induction n generalizing s with
  | zero => exact runs_of_eq rfl
  | succ n ih =>
    have hgoal := runs_runGoal s hg
    have hround := hgoal.trans (runs_round (s.runGoal g) g.task?)
    unfold await
    dsimp only
    split
    · exact hgoal
    · split
      · exact hround.trans (ih _)
      · split
        · exact hround
        · exact (hround.trans (runs_of_move (.elapse _) rfl)).trans (ih _)

end Simulation

/-! ## Exchanges -/

namespace Http

variable {api : Api} {s t : Service} {wall : Score} {r : Request}

theorem Api.of_planOf_eq_publish {route : Route} {draft : Draft} {message : String}
    (h : api.planOf wall r route = .publish draft message) :
    ∃ q, PublishRequest.draft wall q = .ok draft := by
  unfold planOf at h
  split at h
  case h_1 | h_2 | h_3 | h_4 => cases h
  -- Polls.
  case h_5 | h_6 | h_7 =>
    split at h <;> cases h
  -- Publishes.
  case h_8 =>
    split at h
    · cases h
    · next q _ =>
      split at h
      · cases h
      · next d hd =>
        cases h
        exact ⟨q, hd⟩

theorem Api.of_plan_eq_publish {draft : Draft} {message : String}
    (h : api.plan wall r = .publish draft message) :
    ∃ q, PublishRequest.draft wall q = .ok draft := by
  unfold plan at h
  split at h
  · cases h
  · split at h
    · cases h
    · split at h
      · exact Api.of_planOf_eq_publish h
      · cases h

theorem Exchange.exists_run_of_start? {e : Exchange} (h : start? api s r = some (t, e)) :
    ∃ ms, t = s.run ms := by
  unfold start? at h
  split at h
  · cases h
    exact ⟨[], rfl⟩
  · cases h
    exact ⟨[], rfl⟩
  · next q _ _ =>
    obtain ⟨⟨after, id⟩, hpoll, hsame⟩ := Option.map_eq_some_iff.1 h
    cases hsame
    exact ⟨[.poll q false], by simp only [Service.run_cons, Service.move, hpoll]; rfl⟩
  · next draft _ hplan =>
    obtain ⟨q, hq⟩ := Api.of_plan_eq_publish hplan
    cases h
    exact ⟨[.publish q], by rw [Service.run_cons, Service.move_publish, hq]; rfl⟩
  · cases h
    exact ⟨[.probe], rfl⟩

end Http

/-! ## Scripts -/

namespace Script

variable {s t u : Script}

/-- What a script can have done, the store and the second reader apart. -/
inductive Acts (s : Script) : Script → Prop
  | sleep (millis : Nat) : Acts s (s.sleep millis)
  | settle : Acts s s.settle
  | skew (micros : Int) : Acts s (s.modifyService (·.skew micros))
  | faults (faults : List (StoreOperation × Fault)) : Acts s (s.modify ({ · with faults }))
  | nextTimestamp : Acts s s.nextTimestamp.1
  | reserve (name : String) : Acts s (s.reserve name).1
  | release (name : String) : Acts s (s.release name).1
  | publish (r : PublishRequest) : Acts s (s.publish r).1
  | probe : Acts s s.probe.1
  | shutdown : Acts s s.shutdown.1
  | poll (r : PollRequest) (cancelled : Bool) : Acts s (s.startPoll r cancelled).1
  | exchange (api : Http.Api) (r : Http.Request) : Acts s (s.startExchange api r).1
  | purge (interval : Duration) : Acts s (s.startPurge interval).1
  | complete (w : Work) : Acts s (s.complete w).1
  | keep (name : String) (w : Work) : Acts s (s.keep name w)
  | cancel (name : String) : Acts s (s.cancel name)
  | abort (name : String) : Acts s (s.abort name)
  | join (name : String) : Acts s (s.join name).1

theorem runs_awaitTask (s : Script) (id : Nat) :
    s.simulation.Runs (s.awaitTask id).simulation :=
  have hg : Simulation.Goal.task id ≠ .peer := nofun
  Simulation.runs_await s.simulation hg _

theorem runs_modifyService (s : Script) {f : Service → Service} (m : Move)
    (h : f s.service = s.service.move m) : s.simulation.Runs (s.modifyService f).simulation :=
  Simulation.runs_of_move m h

theorem service_release (s : Script) (name : String) : (s.release name).1.service = s.service := by
  unfold release
  split <;> rfl

theorem runs_publish (s : Script) (r : PublishRequest) :
    s.simulation.Runs (s.publish r).1.simulation := by
  unfold publish
  split
  · exact Simulation.runs_of_eq rfl
  · next after p hpublish =>
    have hmove := runs_modifyService s (f := fun _ => after) (.publish r) (by
      simp only [Service.move, hpublish])
    dsimp only
    split
    · exact hmove
    · exact hmove.trans (runs_awaitTask _ _)

theorem runs_complete (s : Script) (w : Work) : s.simulation.Runs (s.complete w).1.simulation := by
  unfold complete
  dsimp only
  split
  · exact Simulation.runs_of_eq rfl
  · exact runs_awaitTask s _

/-- **Each act of a script makes moves of its service.** -/
theorem Acts.runs (h : s.Acts t) : s.simulation.Runs t.simulation := by
  cases h with
  | sleep millis =>
    have hg : Simulation.Goal.time (s.service.now + millis) ≠ .peer := nofun
    exact Simulation.runs_await s.simulation hg _
  | settle => exact Simulation.runs_settle _ _
  | skew micros => exact runs_modifyService s (.skew micros) rfl
  | faults | nextTimestamp | keep => exact Simulation.runs_of_eq rfl
  | reserve name => exact Simulation.runs_of_eq (service_release _ name)
  | release name => exact Simulation.runs_of_eq (service_release s name)
  | publish r => exact runs_publish s r
  | probe => exact (runs_modifyService s .probe rfl).trans (runs_awaitTask _ _)
  | shutdown => exact (runs_modifyService s .shutdown rfl).trans (runs_awaitTask _ _)
  | poll r cancelled =>
    unfold startPoll
    split
    · exact Simulation.runs_of_eq rfl
    · next after id hpoll =>
      exact runs_modifyService s (.poll r cancelled) (by simp only [Service.move, hpoll])
  | exchange api r =>
    unfold startExchange
    split
    · exact Simulation.runs_of_eq rfl
    · next after e hstart => exact Http.Exchange.exists_run_of_start? hstart
  | purge interval => exact runs_modifyService s (.purgeEvery interval) rfl
  | complete w => exact runs_complete s w
  | cancel name =>
    unfold Script.cancel
    split
    · exact runs_modifyService s (.cancel _) rfl
    · exact runs_modifyService s (.cancel _) rfl
    · exact Simulation.runs_of_eq rfl
  | abort name =>
    unfold Script.abort
    split
    · exact Simulation.runs_of_eq rfl
    · split
      · next id _ _ => exact runs_modifyService s (f := (·.drop id)) (.drop id) rfl
      · exact Simulation.runs_of_eq rfl
  | join name =>
    unfold Script.join
    split
    · exact Simulation.runs_of_eq rfl
    · dsimp only
      split
      · exact Simulation.runs_of_eq rfl
      · next p _ _ =>
        have hcomplete := runs_complete
          { s with spawned := s.spawned.filter (·.1 ≠ name) } p.work
        split <;> exact hcomplete

inductive Reaches (s : Script) : Script → Prop
  | refl : Reaches s s
  | tail {t u : Script} (h : Reaches s t) (hact : t.Acts u) : Reaches s u

theorem Reaches.runs (h : s.Reaches t) : s.simulation.Runs t.simulation := by
  induction h with
  | refl => exact Simulation.runs_of_eq rfl
  | tail _ hact ih => exact ih.trans hact.runs

/-- **A scripted service is one that has been started and moved.** -/
theorem reachable_service {settings : QueueSettings} {ids : Nat → Uuid} {wall : Score}
    {service : Service} (hstart : Service.start? settings ids wall = some service)
    (h : Reaches { simulation := { service } } s) : s.service.Reachable := by
  obtain ⟨ms, hms⟩ := h.runs
  exact ⟨settings, ids, wall, service, ms, hstart, hms.symm⟩

end Script

end NotificationQueue
