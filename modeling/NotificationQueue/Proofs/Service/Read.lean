import NotificationQueue.Proofs.Store.Entries
import NotificationQueue.Service.Read

/-!
One read of a queue. Its batch is made of live entries between its bounds that match its filter, in
order, and leaves none of them out below the last event that it holds.
-/
namespace NotificationQueue
set_option autoImplicit false

def Event.Fits (e : Event) (type : Option EventType) : Prop :=
  ∀ t, type = some t → e.type = t

namespace Query

variable {q : Query} {events : List Event} {e : Event}

theorem select_sublist (q : Query) (events : List Event) : (q.select events).Sublist events := by
  unfold select
  split
  · exact List.Sublist.refl _
  · exact (List.take_sublist _ _).trans List.filter_sublist

theorem fits_of_mem_select (h : e ∈ q.select events) : e.Fits q.type := by
  intro t ht
  simp only [select, ht] at h
  have hmem := List.mem_of_mem_take h
  simpa using (List.mem_filter.1 hmem).2

theorem mem_select_of_le {all : List Event} {x y : Event}
    (hall : all.Pairwise fun a b => a.score < b.score) (hinit : events <+: all) (hx : x ∈ all)
    (hfits : x.Fits q.type) (hy : y ∈ q.select events) (hxy : x.score ≤ y.score) :
    x ∈ q.select events := by
  have hyevents := (q.select_sublist events).subset hy
  have hxevents : x ∈ events := Queue.mem_of_prefix hall hinit hx hyevents hxy
  cases ht : q.type with
  | none =>
    simp only [select, ht]
    exact hxevents
  | some t =>
    simp only [select, ht] at hy ⊢
    have hxfilter : x ∈ events.filter (·.type = t) :=
      List.mem_filter.2 ⟨hxevents, decide_eq_true (hfits t ht)⟩
    have hrising : (events.filter (·.type = t)).Pairwise fun a b => a.score < b.score :=
      (hall.sublist hinit.sublist).filter _
    exact Queue.mem_of_prefix hrising (List.take_prefix _ _) hxfilter hy hxy

/-! ## The entries of a range -/

def between (q : Query) (store : Store) (wall : Score) (least : Option Score) (greatest : Score) :
    List Entry :=
  (store.liveEntries q.subject.key wall).filter fun e =>
    least.getD Score.least ≤ e.score && e.score ≤ greatest

variable {store : Store} {wall greatest : Score} {least : Option Score} {x : Entry}

theorem mem_between :
    x ∈ q.between store wall least greatest ↔ x ∈ store.liveEntries q.subject.key wall ∧
      least.getD Score.least ≤ x.score ∧ x.score ≤ greatest := by
  simp [between]

theorem between_sublist :
    (q.between store wall least greatest).Sublist (store.entries q.subject.key) :=
  List.filter_sublist.trans (store.liveEntries_suffix _ _).sublist

theorem between_eq (h : ∀ e ∈ store.entries q.subject.key, Score.least ≤ e.score) :
    q.between store wall least greatest = (store.liveEntries q.subject.key wall).filter fun e =>
      least.all (· ≤ e.score) && e.score ≤ greatest := by
  refine List.filter_congr fun e he => ?_
  cases least with
  | some m => rfl
  | none =>
    have hleast := h e ((store.liveEntries_suffix _ _).subset he)
    rw [Option.getD_none, Option.all_none, decide_eq_true hleast]

def ranged (q : Query) (store : Store) (wall : Score) (least : Option Score) (greatest : Score) :
    Batch :=
  q.batch (((q.between store wall least greatest).take q.fetchLimit).map Entry.event)

end Query

namespace ReadPhase

variable {q : Query} {store : Store} {clock : Clock} {wall greatest : Score}
  {least : Option Score} {b : Batch} {e : Event}

theorem of_result?_eq_some {phase : ReadPhase} {r : Except Failure Batch}
    (h : phase.result? = some r) : phase = .finished r := by
  cases phase with
  | finished r' =>
    cases h
    rfl
  | _ => cases h

theorem start_ne_ranging (q : Query) : q.start ≠ .ranging least greatest := by
  unfold Query.start
  split
  · nofun
  · nofun

theorem of_step_ranging {phase : ReadPhase} {a : Answer}
    (h : phase.step q store clock wall a = .ranging least greatest) :
    phase = .ranging least greatest ∨
      (phase = .bounding least ∧ clock.horizon wall = greatest) := by
  cases phase with
  | locating id => cases a <;> cases h
  | bounding l =>
    cases h
    exact .inr ⟨rfl, rfl⟩
  | ranging l g =>
    cases a with
    | waiting => exact .inl h
    | failed f => cases h
    | done => cases h
  | finished r => cases h

theorem step_ranging_done (q : Query) (store : Store) (clock : Clock) (wall : Score)
    (least : Option Score) (greatest : Score) :
    (ReadPhase.ranging least greatest).step q store clock wall .done =
      .finished (.ok (q.ranged store wall least greatest)) := by
  rw [step, Store.range_eq]
  rfl

theorem foldl_bounding (q : Query) (store : Store) (clock : Clock) (wall : Score)
    (least : Option Score) :
    [Answer.waiting, .done].foldl (·.step q store clock wall) (ReadPhase.bounding least) =
      .finished (.ok (q.ranged store wall least (clock.horizon wall))) :=
  step_ranging_done q store clock wall least _

theorem mem_of_ranging
    (h : (ReadPhase.ranging least greatest).step q store clock wall .done = .finished (.ok b))
    (he : e ∈ b.events) :
    e.Fits q.type ∧ ∃ x ∈ q.between store wall least greatest, x.event = e := by
  rw [step_ranging_done] at h
  cases h
  have hmem := (q.select_sublist _).subset he
  obtain ⟨x, hx, hxe⟩ := List.mem_map.1 hmem
  exact ⟨Query.fits_of_mem_select he, x, List.mem_of_mem_take hx, hxe⟩

end ReadPhase

end NotificationQueue
