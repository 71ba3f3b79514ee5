import NotificationQueue.Proofs.Delivery.Session

/-!
What a client receives that follows its cursors. Nothing that is live at or below the last event it
has received is missing, and what it has received rises and never repeats; both as long as the wall
clock does not go back and no score is given beyond the calendar.
-/
namespace NotificationQueue.Session
set_option autoImplicit false

variable {x : Session} {subject : Subject} {type : Option EventType}

/-! ## Nothing is skipped -/

/-- **No event is skipped by a cursor**: what is live, fits the filter and lies at or below the last
event received has been received. -/
theorem received_of_le_last (hx : x.Reached subject type)
    (hcal : x.service.clock.last ≤ Timestamp.latest.score) {last : Event}
    (hlast : x.client.received.getLast? = some last) {e : Entry}
    (he : e ∈ x.service.store.liveEntries subject.key x.service.wall) (hfits : e.event.Fits type)
    (hle : e.score ≤ last.score) : e.event ∈ x.client.received := by
  have hfollows := (hx.sound hcal).follows
  rw [hx.client.1, hx.client.2] at hfollows
  exact hfollows.complete last (List.mem_of_getLast? hlast) e he hle hfits

def twoOrders : List Turn :=
  [.move (.publish (.newOrder "a" "c" "1")), .move (.advance 0 .done), .move (.advance 0 .done),
    .move (.publish (.newOrder "b" "c" "1")), .move (.advance 1 .done), .move (.advance 1 .done)]

def polled (id : Nat) : List Turn :=
  [.ask false false, .move (.advance id .done), .move (.advance id .done),
    .move (.advance id .done), .hear]

/-- Page by page, a client receives both orders. -/
theorem received_two_orders :
    let x := sample { pageSize := 1 } 10000000 (twoOrders ++ polled 2 ++ polled 4)
    x.service.clock.last ≤ Timestamp.latest.score ∧
    x.client.received.map (·.entityId) = ["a", "b"] ∧
    ∀ last, x.client.received.getLast? = some last →
      ∀ e ∈ x.service.store.liveEntries Subject.admin.key x.service.wall, e.score ≤ last.score →
        e.event ∈ x.client.received := by
  intro x
  have hcal : x.service.clock.last ≤ Timestamp.latest.score := by decide +kernel
  have hreached : x.Reached .admin none :=
    reached_sample (by decide) (by decide) (by decide +kernel)
  refine ⟨hcal, by decide +kernel, fun last hlast e he hle => ?_⟩
  exact received_of_le_last hreached hcal hlast he nofun hle

/-- At the last score of the calendar two orders share it, and the second one is skipped. -/
theorem skipped_at_the_end_of_the_calendar :
    ¬ ∀ (x : Session) (subject : Subject) (type : Option EventType), x.Reached subject type →
      ∀ last, x.client.received.getLast? = some last →
        ∀ e ∈ x.service.store.liveEntries subject.key x.service.wall, e.event.Fits type →
          e.score ≤ last.score → e.event ∈ x.client.received := by
  intro hall
  let x := sample { pageSize := 1 } 8210266876799999999 (twoOrders ++ polled 2)
  have hreached : x.Reached .admin none :=
    reached_sample (by decide) (by decide) (by decide +kernel)
  have hlast : x.client.received.getLast?.map (·.score) = some 8210266876799999999 := by
    decide +kernel
  have hids : x.client.received.map (·.id) = [Service.sampleIds 0] := by decide +kernel
  have hlive : (x.service.store.liveEntries Subject.admin.key x.service.wall).map
      (fun e => (e.score, e.event.id)) = [(8210266876799999999, Service.sampleIds 0),
        (8210266876799999999, Service.sampleIds 1)] := by decide +kernel
  obtain ⟨last, hlast, hscore⟩ := Option.map_eq_some_iff.1 hlast
  have hsecond : ((8210266876799999999 : Score), Service.sampleIds 1) ∈
      (x.service.store.liveEntries Subject.admin.key x.service.wall).map
        (fun e => (e.score, e.event.id)) := by
    rw [hlive]
    exact List.mem_cons_of_mem _ List.mem_cons_self
  obtain ⟨e, he, heq⟩ := List.mem_map.1 hsecond
  obtain ⟨hescore, heid⟩ := Prod.mk.inj heq
  have hreceived := hall x .admin none hreached last hlast e he nofun
    (Int.le_of_eq (hescore.trans hscore.symm))
  have hid := List.mem_map_of_mem (f := Event.id) hreceived
  rw [hids, heid] at hid
  exact absurd hid (by decide)

/-! ## Nothing comes twice -/

/-- **What a client receives rises and never repeats**: scores rise from one event to the next, no
id comes twice, every event was published to the client's subject and fits its filter, and each
answer names the last event received by then. -/
theorem received_rising (hx : x.Reached subject type)
    (hcal : x.service.clock.last ≤ Timestamp.latest.score) :
    (x.client.received.Pairwise fun a b => a.score < b.score) ∧
    (x.client.received.map Event.id).Nodup ∧
    (∀ e ∈ x.client.received, ⟨subject, e⟩ ∈ x.posted ∧ e.Fits type) ∧
    ∀ n r, x.client.answers[n]? = some r → r.lastEventId =
      (((x.client.answers.take (n + 1)).flatMap (·.events)).getLast?.map (·.id.write)).getD "" := by
  have hsound := hx.sound hcal
  have hfollows := hsound.follows
  rw [hx.client.1, hx.client.2] at hfollows
  refine ⟨hfollows.rising, ?_, hfollows.posted, hsound.answered⟩
  rw [List.nodup_iff_pairwise_ne, List.pairwise_map]
  refine hfollows.rising.imp_of_mem fun ha hb hlt heq => ?_
  have hsame := hsound.named.distinct _ (hfollows.posted _ ha).1 _ (hfollows.posted _ hb).1 heq
  have hevents := congrArg (fun n : Notice => n.event.score) hsame
  exact Int.ne_of_lt hlt hevents

def polledLong (id : Nat) : List Turn :=
  [.ask true false, .move (.advance (id + 1) .waiting), .move (.advance (id + 1) .waiting),
    .move (.advance (id + 1) .waiting), .move (.advance (id + 1) .done),
    .move (.advance id .waiting), .hear]

/-- A client receives both orders in one answer to a long poll. -/
theorem received_two_orders_at_once :
    let x := sample {} 10000000 (twoOrders ++ polledLong 2)
    x.service.clock.last ≤ Timestamp.latest.score ∧
    x.client.received.map (·.entityId) = ["a", "b"] ∧
    (x.client.received.Pairwise fun a b => a.score < b.score) ∧
    (x.client.received.map Event.id).Nodup := by
  intro x
  have hcal : x.service.clock.last ≤ Timestamp.latest.score := by decide +kernel
  have hreached : x.Reached .admin none :=
    reached_sample (by decide) (by decide) (by decide +kernel)
  have hrising := received_rising hreached hcal
  exact ⟨hcal, by decide +kernel, hrising.1, hrising.2.1⟩

/-- At the last score of the calendar two orders share it, and scores do not rise. -/
theorem level_at_the_end_of_the_calendar :
    ¬ ∀ (x : Session) (subject : Subject) (type : Option EventType), x.Reached subject type →
      x.client.received.Pairwise fun a b => a.score < b.score := by
  intro hall
  have hrising := hall (sample {} 8210266876799999999 (twoOrders ++ polled 2)) .admin none
    (reached_sample (by decide) (by decide) (by decide +kernel))
  have hscores : (sample {} 8210266876799999999 (twoOrders ++ polled 2)).client.received.map
      Event.score = [8210266876799999999, 8210266876799999999] := by decide +kernel
  rw [← List.pairwise_map (f := Event.score) (R := (· < ·)), hscores] at hrising
  exact absurd hrising (by decide)

end NotificationQueue.Session
