import NotificationQueue.Proofs.Service.Read
import NotificationQueue.Proofs.Time.Score
import NotificationQueue.Proofs.Uuid
import Mathlib.Data.List.Nodup

/-!
A queue read page by page while nothing else happens to it. A cursor is turned back into a score,
and the next page starts right above that score: entries that share it with the end of a page are
passed over. The reader gets the whole queue just if no page ends between two entries of one score.
-/
namespace NotificationQueue
set_option autoImplicit false

/-! ## Pages -/

/-- The first pages of a queue. Behind a page come the entries above all of its scores. -/
def Queue.pages (limit : Nat) (l : List Entry) : Nat → List (List Entry)
  | 0 => []
  | n + 1 => l.take limit ::
    pages limit (l.filter fun e => ∀ a ∈ l.take limit, a.score < e.score) n

/-- However many full pages are cut off, no score stands on both sides of the cut. -/
def Queue.Unbroken (limit : Nat) (l : List Entry) : Prop :=
  ∀ k, ∀ a ∈ l.take (k * limit), ∀ b ∈ l.drop (k * limit), a.score < b.score

namespace Queue

variable {limit n : Nat} {l : List Entry}

theorem length_pages (limit : Nat) (l : List Entry) (n : Nat) : (pages limit l n).length = n := by
  induction n generalizing l with
  | zero => rfl
  | succ n ih => rw [pages, List.length_cons, ih]

theorem filter_page (limit : Nat) (l : List Entry) :
    (l.filter fun e => ∀ a ∈ l.take limit, a.score < e.score) =
      (l.drop limit).filter fun e => ∀ a ∈ l.take limit, a.score < e.score := by
  have hnone : (l.take limit).filter (fun e => ∀ a ∈ l.take limit, a.score < e.score) = [] := by
    refine List.filter_eq_nil_iff.2 fun e he hall => ?_
    exact Int.lt_irrefl _ (of_decide_eq_true hall e he)
  have hsplit := List.filter_append (p := fun e => decide (∀ a ∈ l.take limit, a.score < e.score))
    (l.take limit) (l.drop limit)
  rw [List.take_append_drop, hnone] at hsplit
  exact hsplit

theorem filter_above (h : ∀ b ∈ l.drop limit, ∀ a ∈ l.take limit, a.score < b.score) :
    (l.filter fun e => ∀ a ∈ l.take limit, a.score < e.score) = l.drop limit := by
  rw [filter_page]
  exact List.filter_eq_self.2 fun b hb => decide_eq_true (h b hb)

theorem flatten_pages_sublist (limit n : Nat) (l : List Entry) :
    (pages limit l n).flatten.Sublist l := by
  induction n generalizing l with
  | zero => exact List.nil_sublist l
  | succ n ih =>
    have hlater := ih (l.filter fun e => ∀ a ∈ l.take limit, a.score < e.score)
    have hrest : (l.filter fun e => ∀ a ∈ l.take limit, a.score < e.score).Sublist
        (l.drop limit) := by
      rw [filter_page]
      exact List.filter_sublist
    have hboth := (List.Sublist.refl (l.take limit)).append (hlater.trans hrest)
    rw [List.take_append_drop] at hboth
    exact hboth

theorem unbroken_iff (limit : Nat) (l : List Entry) :
    Unbroken limit l ↔ (∀ a ∈ l.take limit, ∀ b ∈ l.drop limit, a.score < b.score) ∧
      Unbroken limit (l.drop limit) := by
  have htake : ∀ k, l.take ((k + 1) * limit) = l.take limit ++ (l.drop limit).take (k * limit) := by
    intro k
    rw [Nat.succ_mul, Nat.add_comm, List.take_add]
  have hdrop : ∀ k, l.drop ((k + 1) * limit) = (l.drop limit).drop (k * limit) := by
    intro k
    rw [List.drop_drop, Nat.succ_mul, Nat.add_comm]
  constructor
  · intro h
    refine ⟨?_, fun k a ha b hb => ?_⟩
    · have hfirst := h 1
      rwa [Nat.one_mul] at hfirst
    · refine h (k + 1) a ?_ b ?_
      · rw [htake]
        exact List.mem_append_right _ ha
      · rw [hdrop]
        exact hb
  · rintro ⟨hfirst, hrest⟩ k a ha b hb
    cases k with
    | zero => simp at ha
    | succ k =>
      rw [hdrop] at hb
      rw [htake] at ha
      rcases List.mem_append.1 ha with ha | ha
      · exact hfirst a ha b (List.mem_of_mem_drop hb)
      · exact hrest k a ha b hb

/-- **Pages give the whole queue just if none ends between two entries of one score.** -/
theorem flatten_pages_iff (hlimit : 0 < limit) (hn : l.length ≤ n) :
    (pages limit l n).flatten = l ↔ Unbroken limit l := by
  induction n generalizing l with
  | zero =>
    have hl : l = [] := List.length_eq_zero_iff.1 (by omega)
    subst hl
    simp [pages, Unbroken]
  | succ n ih =>
    have hlen : (l.drop limit).length ≤ n := by
      rw [List.length_drop]
      omega
    have hfirst : (pages limit l (n + 1)).flatten = l ↔
        (pages limit (l.filter fun e => ∀ a ∈ l.take limit, a.score < e.score) n).flatten =
          l.drop limit := by
      rw [pages, List.flatten_cons]
      constructor
      · intro h
        have hsplit := h.trans (List.take_append_drop limit l).symm
        exact List.append_cancel_left hsplit
      · intro h
        rw [h, List.take_append_drop]
    rw [hfirst, unbroken_iff]
    constructor
    · intro h
      -- The entries behind the first page can only be complete if none of them was passed over.
      have hsub := flatten_pages_sublist limit n
        (l.filter fun e => ∀ a ∈ l.take limit, a.score < e.score)
      rw [h] at hsub
      have hall : ∀ b ∈ l.drop limit, ∀ a ∈ l.take limit, a.score < b.score := by
        intro b hb
        have hmem := (List.mem_filter.1 (hsub.subset hb)).2
        exact of_decide_eq_true hmem
      have hrest := filter_above hall
      rw [hrest] at h
      exact ⟨fun a ha b hb => hall b hb a ha, (ih hlen).1 h⟩
    · rintro ⟨hall, hrest⟩
      rw [filter_above fun b hb a ha => hall a ha b hb]
      exact (ih hlen).2 hrest

end Queue

/-! ## Queues at rest -/

def Timestamp.InCalendar (t : Timestamp) : Prop :=
  isKept t.seconds = true ∧ t.nanos < 2000000000

instance (t : Timestamp) : Decidable t.InCalendar :=
  inferInstanceAs (Decidable (_ ∧ _))

theorem Timestamp.InCalendar.score_bounds {t : Timestamp} (h : t.InCalendar) :
    Score.least ≤ t.score ∧ t.score < Score.greatest := by
  have hseconds := (isKept_iff t.seconds).1 h.1
  have hnanos := h.2
  unfold Score.least Score.greatest score
  lia

/-- What the queue of a key may hold: entries in order, each of an event at its own score, which is
a point in time of the calendar, and no two of one id. Scores may be equal. -/
structure Store.Proper (s : Store) (key : String) : Prop where
  sorted : (s.entries key).Pairwise Entry.Precedes
  scored : ∀ e ∈ s.entries key, e.event.score = e.score
  dated : ∀ e ∈ s.entries key, e.event.timestamp.InCalendar
  named : ∀ e ∈ s.entries key, e.event.id.IsWellFormed
  distinct : ((s.entries key).map (·.event.id)).Nodup

structure Moment where
  clock : Clock
  wall : Score

/-- The queue of a key is live at a moment, and none of its entries lies beyond the horizon. -/
structure Moment.Sees (m : Moment) (s : Store) (key : String) : Prop where
  live : s.liveEntries key m.wall = s.entries key
  within : ∀ e ∈ s.entries key, e.score ≤ m.clock.horizon m.wall

namespace Query

variable {q : Query} {store : Store} {a b c : Moment} {rest : List Entry}

/-- A read whose steps are taken at three moments: it needs no more of them. -/
def resolve (q : Query) (store : Store) (a b c : Moment) : Option (Except Failure Batch) :=
  let first := q.start.step q store a.clock a.wall .done
  let second := first.step q store b.clock b.wall .done
  (second.step q store c.clock c.wall .done).result?

/-- The batches of a reader that follows its cursors, one for each three moments. -/
def follow (q : Query) (store : Store) : List (Moment × Moment × Moment) → List Batch
  | [] => []
  | (a, b, c) :: polls =>
    match q.resolve store a b c with
    | some (.ok batch) => batch :: follow { q with cursor := batch.nextCursor } store polls
    | _ => []

def Behind (l : List Entry) (cursor : Option String) (rest : List Entry) : Prop :=
  (cursor = none ∧ rest = l) ∨
    ∃ e ∈ l, cursor = some e.event.id.write ∧ rest = l.filter fun x => e.score < x.score

theorem between_none (hp : store.Proper q.subject.key) (hm : b.Sees store q.subject.key)
    (hc : c.Sees store q.subject.key) :
    q.between store c.wall none (b.clock.horizon b.wall) = store.entries q.subject.key := by
  have hleast : ∀ e ∈ store.entries q.subject.key, Score.least ≤ e.score := by
    intro e he
    rw [← hp.scored e he]
    exact (hp.dated e he).score_bounds.1
  rw [between_eq hleast, hc.live]
  exact List.filter_eq_self.2 fun e he => decide_eq_true (hm.within e he)

theorem between_some (hm : b.Sees store q.subject.key) (hc : c.Sees store q.subject.key)
    (s : Score) :
    q.between store c.wall (some (s + 1)) (b.clock.horizon b.wall) =
      (store.entries q.subject.key).filter fun x => s < x.score := by
  rw [between, hc.live]
  refine List.filter_congr fun e he => ?_
  have hle := hm.within e he
  simp only [Option.getD_some, hle, decide_true, Bool.and_true, decide_eq_decide]
  lia

theorem find?_of_mem (hp : store.Proper q.subject.key) (ha : a.Sees store q.subject.key)
    {e : Entry} (he : e ∈ store.entries q.subject.key) :
    store.find? q.subject.key e.event.id a.wall = some e.event := by
  rw [Store.find?_eq, ha.live]
  cases hf : (store.entries q.subject.key).find? fun x => x.event.id = e.event.id with
  | none => exact absurd (List.find?_eq_none.1 hf e he) (by simp)
  | some x =>
    have hid : x.event.id = e.event.id := by simpa using List.find?_some hf
    have hx := List.mem_of_find?_eq_some hf
    have hsame : x = e := List.inj_on_of_nodup_map hp.distinct hx he hid
    rw [hsame, Option.map_some]

theorem resolve_of_behind (hp : store.Proper q.subject.key) (ht : q.type = none)
    (ha : a.Sees store q.subject.key) (hb : b.Sees store q.subject.key)
    (hc : c.Sees store q.subject.key) (h : Behind (store.entries q.subject.key) q.cursor rest) :
    q.resolve store a b c =
      some (.ok (.ofEvents ((rest.take q.limit).map Entry.event) q.cursor q.limit)) := by
  have hbatch : ∀ events, q.batch events = .ofEvents events (cursorOf q.cursor) q.limit := by
    intro events
    rw [batch, select, ht]
  have hfetch : q.fetchLimit = q.limit := by rw [fetchLimit, ht]
  have hranged : ∀ (m : Moment) (least : Option Score) (greatest : Score),
      q.between store m.wall least greatest = rest →
      (ReadPhase.ranging least greatest).step q store m.clock m.wall .done =
        .finished (.ok (.ofEvents ((rest.take q.limit).map Entry.event) (cursorOf q.cursor)
          q.limit)) := by
    intro m least greatest hrest
    rw [ReadPhase.step_ranging_done, ranged, hrest, hfetch, hbatch]
  rcases h with ⟨hcursor, rfl⟩ | ⟨e, he, hcursor, rfl⟩
  · have hstart : q.start = .bounding none := by
      rw [start, hcursor]
      rfl
    have hfirst : (ReadPhase.bounding none).step q store a.clock a.wall .done =
        .ranging none (a.clock.horizon a.wall) := rfl
    have hsecond := hranged b none (a.clock.horizon a.wall) (between_none hp ha hb)
    simp only [resolve, hstart, hfirst, hsecond, hcursor]
    rfl
  · have hread : Uuid.read? e.event.id.write = some e.event.id :=
      Uuid.read?_write (hp.named e he)
    have hcursorOf : cursorOf (some e.event.id.write) = some e.event.id.write := by
      simp [cursorOf, Option.filter, Uuid.write_ne_empty]
    have hstart : q.start = .locating e.event.id := by
      rw [start, hcursor, hcursorOf, Option.bind_some, hread]
    have hsucc : Score.succ e.event.score = e.score + 1 := by
      have hbounds := (hp.dated e he).score_bounds
      have hscore : e.event.timestamp.score = e.score := hp.scored e he
      unfold Score.succ
      rw [hp.scored e he]
      lia
    have hfirst : (ReadPhase.locating e.event.id).step q store a.clock a.wall .done =
        .bounding (some (e.score + 1)) := by
      rw [ReadPhase.step, find?_of_mem hp ha he, Option.map_some, hsucc]
    have hsecond : (ReadPhase.bounding (some (e.score + 1))).step q store b.clock b.wall .done =
        .ranging (some (e.score + 1)) (b.clock.horizon b.wall) := rfl
    have hthird := hranged c (some (e.score + 1)) (b.clock.horizon b.wall)
      (between_some hb hc e.score)
    simp only [resolve, hstart, hfirst, hsecond, hthird, hcursor, hcursorOf]
    rfl

theorem behind_nextCursor {l : List Entry} {cursor : Option String} {limit : Nat}
    (hl : l.Pairwise Entry.Precedes) (hlimit : 0 < limit) (h : Behind l cursor rest) :
    Behind l (Batch.ofEvents ((rest.take limit).map Entry.event) cursor limit).nextCursor
      (rest.filter fun e => ∀ a ∈ rest.take limit, a.score < e.score) := by
  have hsub : rest.Sublist l := by
    rcases h with ⟨-, rfl⟩ | ⟨e, -, -, rfl⟩
    · exact List.Sublist.refl _
    · exact List.filter_sublist
  simp only [Batch.ofEvents, List.getLast?_map, Option.map_map]
  cases hlast : (rest.take limit).getLast? with
  | none =>
    have hempty : rest = [] := by
      have htake := List.getLast?_eq_none_iff.1 hlast
      rcases List.take_eq_nil_iff.1 htake with hzero | hnil
      · omega
      · exact hnil
    subst hempty
    exact h
  | some x =>
    have hxpage : x ∈ rest.take limit := List.mem_of_getLast? hlast
    have hx : x ∈ l := hsub.subset (List.mem_of_mem_take hxpage)
    have hpage : ∀ a ∈ rest.take limit, a.score ≤ x.score := by
      obtain ⟨front, hfront⟩ := List.getLast?_eq_some_iff.1 hlast
      have hsorted := (hl.sublist hsub).sublist (List.take_sublist limit rest)
      rw [hfront] at hsorted ⊢
      intro a ha
      rcases List.mem_append.1 ha with ha | ha
      · exact ((List.pairwise_append.1 hsorted).2.2 a ha x (List.mem_singleton_self x)).score_le
      · have hsame := List.mem_singleton.1 ha
        exact Int.le_of_eq (congrArg Entry.score hsame)
    have habove : ∀ e : Entry, (∀ a ∈ rest.take limit, a.score < e.score) ↔
        x.score < e.score := by
      intro e
      constructor
      · intro hall
        exact hall x hxpage
      · intro hlt a ha
        exact Int.lt_of_le_of_lt (hpage a ha) hlt
    refine .inr ⟨x, hx, rfl, ?_⟩
    simp only [habove]
    rcases h with ⟨-, rfl⟩ | ⟨e, -, -, rfl⟩
    · rfl
    · have hxe : e.score < x.score := by
        have hmem := (List.mem_filter.1 (List.mem_of_mem_take hxpage)).2
        exact of_decide_eq_true hmem
      rw [List.filter_filter]
      refine List.filter_congr fun y _ => ?_
      simp only [← Bool.decide_and, decide_eq_decide]
      lia

end Query

/-! ## Chains of batches -/

def Batch.chain (limit : Nat) (cursor : Option String) : List (List Entry) → List Batch
  | [] => []
  | page :: pages =>
    let b := Batch.ofEvents (page.map Entry.event) cursor limit
    b :: chain limit b.nextCursor pages

namespace Batch

variable {limit : Nat} {cursor : Option String} {pages : List (List Entry)}

theorem length_chain (limit : Nat) (cursor : Option String) (pages : List (List Entry)) :
    (chain limit cursor pages).length = pages.length := by
  induction pages generalizing cursor with
  | nil => rfl
  | cons page pages ih => simp [chain, ih]

theorem events_chain (limit : Nat) (cursor : Option String) (pages : List (List Entry)) :
    (chain limit cursor pages).flatMap (·.events) = pages.flatten.map Entry.event := by
  induction pages generalizing cursor with
  | nil => rfl
  | cons page pages ih => simp [chain, ih, ofEvents]

theorem eq_empty_of_mem_chain (hlimit : 0 < limit) (h : ∀ page ∈ pages, page = []) {b : Batch}
    (hb : b ∈ chain limit cursor pages) : b = .empty cursor := by
  induction pages generalizing cursor with
  | nil => cases hb
  | cons page pages ih =>
    have hpage : page = [] := h page List.mem_cons_self
    have hfirst : ofEvents (page.map Entry.event) cursor limit = .empty cursor := by
      have hzero : 0 ≠ limit := by omega
      simp [hpage, ofEvents, empty, hzero]
    rw [chain, hfirst] at hb
    rcases List.mem_cons.1 hb with hb | hb
    · exact hb
    · exact ih (fun p hp => h p (List.mem_cons_of_mem page hp)) hb

theorem eq_empty_of_mem_drop (hlimit : 0 < limit) {n : Nat}
    (h : ((chain limit cursor pages).take n).flatMap (·.events) =
      (chain limit cursor pages).flatMap (·.events))
    {b : Batch} (hb : b ∈ (chain limit cursor pages).drop n) :
    b = .empty ((((chain limit cursor pages).flatMap (·.events)).getLast?.map (·.id.write)).or
      cursor) := by
  induction pages generalizing cursor n with
  | nil => simp [chain] at hb
  | cons page pages ih =>
    cases n with
    | zero =>
      have hnone : (chain limit cursor (page :: pages)).flatMap (·.events) = [] := by
        simpa using h.symm
      have hempty : ∀ p ∈ page :: pages, p = [] := by
        rw [events_chain, List.map_eq_nil_iff] at hnone
        exact List.flatten_eq_nil_iff.1 hnone
      rw [hnone]
      exact eq_empty_of_mem_chain hlimit hempty hb
    | succ n =>
      simp only [chain, List.take_succ_cons, List.flatMap_cons, List.drop_succ_cons] at h hb ⊢
      have hlast := ih (List.append_cancel_left h) hb
      rw [hlast, List.getLast?_append]
      simp only [ofEvents]
      congr 1
      cases ((chain limit _ pages).flatMap (·.events)).getLast? <;> simp

end Batch

namespace Query

variable {q : Query} {store : Store} {rest : List Entry} {polls : List (Moment × Moment × Moment)}

theorem follow_eq_chain (hp : store.Proper q.subject.key) (ht : q.type = none)
    (hlimit : 0 < q.limit) (h : Behind (store.entries q.subject.key) q.cursor rest)
    (hsees : ∀ m ∈ polls, m.1.Sees store q.subject.key ∧ m.2.1.Sees store q.subject.key ∧
      m.2.2.Sees store q.subject.key) :
    q.follow store polls =
      Batch.chain q.limit q.cursor (Queue.pages q.limit rest polls.length) := by
  induction polls generalizing q rest with
  | nil => rfl
  | cons m polls ih =>
    obtain ⟨a, b, c⟩ := m
    obtain ⟨ha, hb, hc⟩ := hsees (a, b, c) List.mem_cons_self
    have hbatch := resolve_of_behind hp ht ha hb hc h
    have hnext := behind_nextCursor hp.sorted hlimit h
    have hlater := ih (q := { q with cursor :=
        (Batch.ofEvents ((rest.take q.limit).map Entry.event) q.cursor q.limit).nextCursor })
      hp ht hlimit hnext fun m hm => hsees m (List.mem_cons_of_mem _ hm)
    rw [follow, hbatch]
    dsimp only
    rw [hlater]
    rfl

/-- **Page after page a reader gets the whole queue, each entry once and in order, just if no page
ends between two entries of one score.** In any case each of its polls is answered, and once all
that it gets has come the batches are empty, tell of nothing more and leave its cursor. -/
theorem follow_complete_iff (hp : store.Proper q.subject.key) (ht : q.type = none)
    (hcursor : q.cursor = none) (hlimit : 0 < q.limit)
    (hsees : ∀ m ∈ polls, m.1.Sees store q.subject.key ∧ m.2.1.Sees store q.subject.key ∧
      m.2.2.Sees store q.subject.key)
    (hlong : (store.entries q.subject.key).length ≤ polls.length) :
    (q.follow store polls).length = polls.length ∧
    ((q.follow store polls).flatMap (·.events) =
        (store.entries q.subject.key).map Entry.event ↔
      Queue.Unbroken q.limit (store.entries q.subject.key)) ∧
    ∀ n, ((q.follow store polls).take n).flatMap (·.events) =
        (q.follow store polls).flatMap (·.events) →
      ∀ b ∈ (q.follow store polls).drop n,
        b = ⟨[], ((q.follow store polls).flatMap (·.events)).getLast?.map (·.id.write), false⟩ := by
  have hfollow := follow_eq_chain hp ht hlimit (.inl ⟨hcursor, rfl⟩) hsees
  have hpages : ∀ n, (Queue.pages q.limit (store.entries q.subject.key) n).length = n :=
    Queue.length_pages q.limit _
  rw [hfollow, Batch.events_chain, Batch.length_chain, hpages]
  refine ⟨rfl, ?_, ?_⟩
  · rw [← Queue.flatten_pages_iff hlimit hlong]
    constructor
    · intro h
      have hsub := Queue.flatten_pages_sublist q.limit polls.length (store.entries q.subject.key)
      have hlen := congrArg List.length h
      rw [List.length_map, List.length_map] at hlen
      exact hsub.eq_of_length hlen
    · intro h
      rw [h]
  · intro n hn b hb
    have hempty := Batch.eq_empty_of_mem_drop hlimit (hn.trans (Batch.events_chain _ _ _).symm) hb
    rw [hempty, Batch.events_chain, hcursor, Option.or_none]
    rfl

def sampleStore (scores : List Score) : Store :=
  scores.zipIdx.foldl (fun s x => s.append Subject.admin.key x.1
    { (default : Event) with
      id := ⟨List.replicate Uuid.digitCount x.2⟩, timestamp := .ofMicros x.1, ttl := 300 } 0) {}

def samplePolls (n : Nat) : List (Moment × Moment × Moment) :=
  List.replicate n (⟨{}, 10⟩, ⟨{}, 10⟩, ⟨{}, 10⟩)

theorem proper_sampleStore {scores : List Score}
    (h : ((sampleStore scores).entries Subject.admin.key).Pairwise Entry.Precedes ∧
      (∀ e ∈ (sampleStore scores).entries Subject.admin.key, e.event.score = e.score ∧
        e.event.timestamp.InCalendar ∧ e.event.id.digits.length = Uuid.digitCount ∧
        ∀ d ∈ e.event.id.digits, d < 16) ∧
      (((sampleStore scores).entries Subject.admin.key).map (·.event.id)).Nodup) :
    (sampleStore scores).Proper Subject.admin.key where
  sorted := h.1
  scored e he := (h.2.1 e he).1
  dated e he := (h.2.1 e he).2.1
  named e he := (h.2.1 e he).2.2
  distinct := h.2.2

theorem samplePolls_sees (scores : List Score)
    (h : Moment.Sees ⟨{}, 10⟩ (sampleStore scores) Subject.admin.key) (n : Nat) :
    ∀ m ∈ samplePolls n, m.1.Sees (sampleStore scores) Subject.admin.key ∧
      m.2.1.Sees (sampleStore scores) Subject.admin.key ∧
      m.2.2.Sees (sampleStore scores) Subject.admin.key := by
  intro m hm
  rw [List.eq_of_mem_replicate hm]
  exact ⟨h, h, h⟩

/-- Two entries of one score within a page are both read. -/
theorem follow_through_tie :
    let q : Query := { subject := .admin, limit := 2 }
    let batches := q.follow (sampleStore [0, 0, 1]) (samplePolls 3)
    batches.map (fun b => (b.events.map Event.score, b.hasMore)) =
      [([0, 0], true), ([1], false), ([], false)] ∧
    batches.flatMap (·.events) =
      ((sampleStore [0, 0, 1]).entries Subject.admin.key).map Entry.event := by
  intro q batches
  have hsees := samplePolls_sees [0, 0, 1] ⟨rfl, by decide +kernel⟩ 3
  have hunbroken : Queue.Unbroken 2 ((sampleStore [0, 0, 1]).entries Subject.admin.key) := by
    intro k
    match k with
    | 0 => simp
    | 1 => decide +kernel
    | k + 2 =>
      have hlen : ((sampleStore [0, 0, 1]).entries Subject.admin.key).length = 3 := by
        decide +kernel
      have hnone : ((sampleStore [0, 0, 1]).entries Subject.admin.key).drop ((k + 2) * 2) = [] :=
        List.drop_eq_nil_of_le (by omega)
      intro a _ b hb
      rw [hnone] at hb
      exact absurd hb List.not_mem_nil
  have hcomplete := follow_complete_iff (q := q) (proper_sampleStore (by decide +kernel)) rfl rfl
    (by decide) hsees (by decide +kernel)
  exact ⟨by decide +kernel, hcomplete.2.1.2 hunbroken⟩

/-- A page that ends between two entries of one score: the second is lost. -/
theorem follow_loses_tie :
    ¬ ∀ (q : Query) (store : Store) (polls : List (Moment × Moment × Moment)),
      store.Proper q.subject.key → q.type = none → q.cursor = none → 0 < q.limit →
      (∀ m ∈ polls, m.1.Sees store q.subject.key ∧ m.2.1.Sees store q.subject.key ∧
        m.2.2.Sees store q.subject.key) →
      (store.entries q.subject.key).length ≤ polls.length →
      (q.follow store polls).flatMap (·.events) =
        (store.entries q.subject.key).map Entry.event := by
  intro hall
  have hsees := samplePolls_sees [0, 0] ⟨rfl, by decide +kernel⟩ 2
  have hboth := hall { subject := .admin, limit := 1 } (sampleStore [0, 0]) (samplePolls 2)
    (proper_sampleStore (by decide +kernel)) rfl rfl (by decide) hsees (by decide +kernel)
  have hlength := congrArg List.length hboth
  exact absurd hlength (by decide +kernel)

end Query

end NotificationQueue
