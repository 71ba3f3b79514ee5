import NotificationQueue.Proofs.Delivery.Session
import NotificationQueue.Proofs.Http.Polling
import NotificationQueue.Proofs.Http.Query
import NotificationQueue.Proofs.Publish
import NotificationQueue.Proofs.Service.Validity

/-!
Where events go, and where readers of their type look for them. A publish goes by the recipient that
it names, and a poll for one type by the type: users look for order updates in their own queues and
for nothing else. A recipient finds an event by its type just if the two agree; they do for all that
the requests for orders publish, and need not for events described in full.
-/
namespace NotificationQueue
set_option autoImplicit false

/-! ## Types and recipients -/

def PublishRequest.type : PublishRequest → EventType
  | .event r => r.type
  | .orderStatusChange .. => .customerOrderStatus
  | .newOrder .. => .adminNewOrder
  | .orderUpdate .. => .adminOrderUpdate

theorem PublishRequest.type_of_describes {r : PublishRequest} {wall : Score} {e : Event}
    (h : r.Describes wall e) : e.type = r.type := by
  cases r <;> exact h.1

/-- Order updates for customers suit the queues of users, and all other events that of
administrators. -/
def Subject.Suits (σ : Subject) (type : EventType) : Prop :=
  type = .customerOrderStatus ↔ σ ≠ .admin

theorem PublishRequest.suits_of_order {r : PublishRequest} (h : ∀ q, r ≠ .event q) :
    r.recipient.Suits r.type := by
  cases r with
  | event q => exact absurd rfl (h q)
  | orderStatusChange => exact iff_of_true rfl nofun
  | newOrder | orderUpdate => exact iff_of_false nofun fun hne => hne rfl

/-- The queues of users hold order updates for customers only, and that of administrators none. -/
def Store.IsRouted (s : Store) : Prop :=
  (∀ id, ∀ x ∈ s.entries (Subject.user id).key, x.event.type = .customerOrderStatus) ∧
    ∀ x ∈ s.entries Subject.admin.key, x.event.type ≠ .customerOrderStatus

theorem Store.isRouted_iff {s : Store} :
    s.IsRouted ↔ ∀ σ : Subject, ∀ x ∈ s.entries σ.key, σ.Suits x.event.type := by
  constructor
  · intro h σ x hx
    cases σ with
    | user id => exact iff_of_true (h.1 id x hx) nofun
    | admin => exact iff_of_false (h.2 x hx) fun hne => hne rfl
  · intro h
    exact ⟨fun id x hx => (h (.user id) x hx).2 nofun,
      fun x hx htype => (h .admin x hx).1 htype rfl⟩

theorem Store.not_isRouted_of_mem {s : Store} {σ : Subject} {x : Entry}
    (hx : x ∈ s.entries σ.key) (hnot : ¬ σ.Suits x.event.type) : ¬ s.IsRouted :=
  fun h => hnot (isRouted_iff.1 h σ x hx)

/-- The queue is one whose events are for the caller. -/
def Caller.Owns (c : Caller) (σ : Subject) : Prop :=
  σ = .user c.id ∨ c.isAdmin = true ∧ σ = .admin

/-- **Readers of a type look where an event of it is for them just if the queue suits the type.** -/
theorem Subject.forType_eq_iff {c : Caller} (hid : c.id ≠ "") {σ : Subject} (hσ : c.Owns σ)
    (type : EventType) : Subject.forType type (some c.id) = σ ↔ σ.Suits type := by
  have hown : Subject.forType .customerOrderStatus (some c.id) = .user c.id := if_neg hid
  unfold Suits
  by_cases htype : type = .customerOrderStatus
  · subst htype
    rw [hown]
    rcases hσ with rfl | ⟨-, rfl⟩ <;> simp
  · have hother : Subject.forType type (some c.id) = .admin := by
      cases type with
      | customerOrderStatus => exact absurd rfl htype
      | _ => rfl
    rw [hother]
    rcases hσ with rfl | ⟨-, rfl⟩ <;> simp [htype]

theorem Http.subject_of_eventsPoll {c : Caller} {r : Http.Request} {p : PollRequest}
    (h : Http.eventsPoll c r = .ok p) {type : EventType} (htype : p.type = some type) :
    p.subject = .forType type (some c.id) := by
  obtain ⟨ps, -, h⟩ := Except.of_bind_eq_ok h
  obtain ⟨asked, -, h⟩ := Except.of_bind_eq_ok h
  cases asked with
  | none =>
    cases h
    cases htype
  | some t =>
    dsimp only at h
    split at h
    · cases h
    · cases h
      cases htype
      rfl

/-! ## What is published -/

namespace Service

variable {s s₀ : Service} {n : Notice}

theorem exists_request_of_mem_log {ms : List Move} (h : n ∈ s.log ms) :
    ∃ r, .publish r ∈ ms ∧ r.blank? = none ∧ n.subject = r.recipient ∧ n.event.type = r.type := by
  induction ms generalizing s with
  | nil => cases h
  | cons m ms ih =>
    rw [log] at h
    rcases List.mem_append.1 h with hfirst | hrest
    · have hposted := Option.mem_toList.1 hfirst
      cases m with
      | publish r =>
        simp only [posted?] at hposted
        rcases r.draft_cases s.wall with
          ⟨field, -, hdraft⟩ | ⟨hblank, d, hdraft, hsubject, hdescribes⟩
        · rw [hdraft] at hposted
          cases hposted
        · rw [hdraft] at hposted
          cases hposted
          exact ⟨r, List.mem_cons_self, hblank, hsubject,
            PublishRequest.type_of_describes (hdescribes _ _ _)⟩
      | _ => cases hposted
    · obtain ⟨r, hr, hrest⟩ := ih hrest
      exact ⟨r, List.mem_cons_of_mem m hr, hrest⟩

theorem exists_landed (s : Service) {r : PublishRequest} (hr : r.blank? = none) :
    ∃ x ∈ (s.run [.publish r, .advance s.tasks.size .done]).store.entries r.recipient.key,
      x.event.type = r.type := by
  rcases r.draft_cases s.wall with ⟨field, hfield, -⟩ | ⟨-, d, hdraft, hsubject, hdescribes⟩
  · rw [hr] at hfield
    cases hfield
  · have hmove : s.move (.publish r) = (s.submit d).1 := by rw [move_publish, hdraft]
    obtain ⟨x, hx, hevent⟩ := exists_landed_of_appending (submit_task s d) rfl
    have hkey : (s.core.writeOf d).key = r.recipient.key := congrArg Subject.key hsubject
    rw [run_cons, hmove, ← hkey]
    refine ⟨x, hx, ?_⟩
    rw [hevent]
    exact PublishRequest.type_of_describes (hdescribes _ _ _)

end Service

/-! ## Reading on from the entry before -/

theorem Query.mem_ranged_of_between {q : Query} {store : Store} {wall greatest : Score}
    {least : Option Score} {x : Entry} {rest : List Entry}
    (h : q.between store wall least greatest = x :: rest) (htype : q.type = some x.event.type)
    (hlimit : 0 < q.limit) : x.event ∈ (q.ranged store wall least greatest).events := by
  obtain ⟨fetched, hfetched⟩ : ∃ k, q.fetchLimit = k + 1 := by
    refine Nat.exists_eq_succ_of_ne_zero ?_
    rw [fetchLimit, htype]
    simp only [overfetch, Text.maxWord64]
    omega
  obtain ⟨most, hmost⟩ := Nat.exists_eq_succ_of_ne_zero (Nat.ne_of_gt hlimit)
  show x.event ∈ q.select _
  rw [h, hfetched, List.take_succ_cons, List.map_cons, select, htype]
  dsimp only
  rw [List.filter_cons_of_pos (by simp), hmost, List.take_succ_cons]
  exact List.mem_cons_self

namespace Core

variable {c : Core} {log : List Notice} {σ : Subject} {before after : List Entry} {x : Entry}

theorem Sound.follows_before (hs : c.Sound log)
    (hlive : c.store.liveEntries σ.key c.wall = before ++ x :: after)
    (hx : x.score ≤ c.clock.horizon c.wall) : c.Follows log σ none (before.map Entry.event) := by
  obtain ⟨hbefore, -, hacross⟩ := List.pairwise_append.1 (hlive ▸ hs.live_rising σ)
  have hstored : ∀ y ∈ before, y ∈ c.store.entries σ.key := fun y hy =>
    (c.store.liveEntries_suffix _ _).subset (hlive ▸ List.mem_append_left _ hy)
  have hscore : ∀ y ∈ before, y.event.score = y.score := fun y hy => (hs.posted (hstored y hy)).2
  constructor
  case rising =>
    refine List.pairwise_map.2 (hbefore.imp_of_mem fun hy hz hlt => ?_)
    rw [hscore _ hy, hscore _ hz]
    exact hlt
  case posted =>
    intro e he
    obtain ⟨y, hy, rfl⟩ := List.mem_map.1 he
    exact ⟨(hs.posted (hstored y hy)).1, nofun⟩
  case passed =>
    intro e he i w hw hp
    obtain ⟨y, hy, rfl⟩ := List.mem_map.1 he
    have hbelow := hacross y hy x List.mem_cons_self
    have hgranted := hs.granted.2 i w hw hp
    rw [hscore y hy]
    lia
  case complete =>
    intro e he z hz hle _
    obtain ⟨y, hy, rfl⟩ := List.mem_map.1 he
    rw [hlive] at hz
    rw [hscore y hy] at hle
    rcases List.mem_append.1 hz with hz | hz
    · exact List.mem_map_of_mem hz
    · exact absurd (hacross y hy z hz) (Int.not_lt.2 hle)
  case anchored =>
    intro e he
    obtain ⟨y, hy, rfl⟩ := List.mem_map.1 (List.mem_of_getLast? he)
    exact .inl ⟨y, hstored y hy, rfl⟩

theorem Sound.exists_ranged (hs : c.Sound log) (hn : Named log)
    (hcal : c.clock.last ≤ Timestamp.latest.score) {q : Query} {seen : List Event}
    {type : Option EventType} (hseen : c.Follows log q.subject type seen)
    (hcursor : q.cursor = cursorBehind seen) :
    ∃ (least : Option Score) (as : List Answer), c.Starts q.subject seen least ∧
      as.foldl (·.step q c.store c.clock c.wall) q.start =
        .finished (.ok (q.ranged c.store c.wall least (c.clock.horizon c.wall))) := by
  have hbounded := ReadPhase.foldl_bounding q c.store c.clock c.wall
  rw [start_behind hn hseen hcursor]
  cases hl : seen.getLast? with
  | none =>
    refine ⟨none, [.waiting, .done], ?_, hbounded none⟩
    intro e he
    rw [hl] at he
    cases he
  | some e =>
    exact ⟨_, [.done, .waiting, .done], starts_of_find? hs hn hcal hseen hl, hbounded _⟩

theorem Starts.exists_between (hs : c.Sound log) {q : Query} {least : Option Score}
    (h : c.Starts q.subject (before.map Entry.event) least)
    (hlive : c.store.liveEntries q.subject.key c.wall = before ++ x :: after)
    (hx : x.score ≤ c.clock.horizon c.wall) :
    ∃ rest, q.between c.store c.wall least (c.clock.horizon c.wall) = x :: rest := by
  obtain ⟨-, -, hacross⟩ := List.pairwise_append.1 (hlive ▸ hs.live_rising q.subject)
  have hmem : ∀ y ∈ before ++ x :: after, y ∈ c.store.liveEntries q.subject.key c.wall :=
    fun y hy => hlive ▸ hy
  have hscore : ∀ y ∈ before, y.event.score = y.score := fun y hy =>
    hs.score_of_live (hmem y (List.mem_append_left _ hy))
  have hbelow : ∀ y ∈ before, ¬ least.getD Score.least ≤ y.score := by
    intro y hy hle
    have hrising := (hs.follows_before hlive hx).rising
    obtain ⟨e, he, hlast⟩ := Event.exists_last hrising (List.mem_map_of_mem hy)
    have habove := (h.le_iff hs (hmem y (List.mem_append_left _ hy))).1 hle e he
    rw [hscore y hy] at hlast
    lia
  have hfrom : least.getD Score.least ≤ x.score := by
    refine (h.le_iff hs (hmem x (by simp))).2 fun e he => ?_
    obtain ⟨y, hy, rfl⟩ := List.mem_map.1 (List.mem_of_getLast? he)
    rw [hscore y hy]
    exact hacross y hy x List.mem_cons_self
  refine ⟨after.filter fun y =>
    least.getD Score.least ≤ y.score && y.score ≤ c.clock.horizon c.wall, ?_⟩
  rw [Query.between, hlive, List.filter_append, List.filter_eq_nil_iff.2, List.nil_append,
    List.filter_cons_of_pos]
  · simp [hfrom, hx]
  · intro y hy
    simp [hbelow y hy]

end Core

namespace Service

variable {s₀ : Service} {n : Notice}

/-! ## What is stored -/

section

variable {settings : QueueSettings} {ids : Nat → Uuid} {wall : Score}
  (hstart : start? settings ids wall = some s₀)

include hstart

theorem exists_request_of_stored (ms : List Move) {σ : Subject} {x : Entry}
    (hx : x ∈ (s₀.run ms).store.entries σ.key) :
    ∃ r, .publish r ∈ ms ∧ r.blank? = none ∧ r.recipient = σ ∧ r.type = x.event.type := by
  obtain ⟨n, hn, hkey, hevent, -⟩ := (traced_of_start hstart ms).entry σ.key x hx
  obtain ⟨r, hr, hblank, hsubject, htype⟩ := exists_request_of_mem_log hn
  refine ⟨r, hr, hblank, ?_, ?_⟩
  · rw [← hsubject, Subject.key_injective hkey]
  · rw [← htype, hevent]

theorem isRouted_of_requests {ms : List Move}
    (hms : ∀ r, .publish r ∈ ms → r.blank? = none → r.recipient.Suits r.type) :
    (s₀.run ms).store.IsRouted := by
  refine Store.isRouted_iff.2 fun σ x hx => ?_
  obtain ⟨r, hr, hblank, rfl, htype⟩ := exists_request_of_stored hstart ms hx
  rw [← htype]
  exact hms r hr hblank

theorem notMem_of_subject_ne {ms : List Move} (hn : n ∈ s₀.log ms) {p : PollRequest}
    (hp : p.subject ≠ n.subject) {t : Service} {cancelled : Bool} {id : Nat}
    (h : (s₀.run ms).poll? p cancelled = some (t, id)) {later : List Move}
    (hids : Uuid.Fresh ids (t.run later).issued) {page : PollResponse}
    (hpage : (t.run later).pollResult? id = some (.ok page)) : n.event ∉ page.events := by
  intro he
  have hpaired : (s₀.run ms).Paired := Reachable.paired ⟨settings, ids, wall, s₀, ms, hstart, rfl⟩
  obtain ⟨before, ⟨rest, rfl⟩, x, hx, hevent⟩ := mem_of_pollResult? hpaired h hpage he
  have hmove : (s₀.run ms).move (.poll p cancelled) = t := by simp only [move, h]
  have hrun (ns : List Move) : t.run ns = s₀.run (ms ++ .poll p cancelled :: ns) := by
    rw [run_append, run_cons, hmove]
  rw [hrun] at hx hids
  obtain ⟨n', hn', hkey, hsame, -⟩ := (traced_of_start hstart _).entry _ x
    (((s₀.run _).store.liveEntries_suffix _ _).subset hx)
  -- Both are published in the whole run, where no id is given twice.
  have hmem : n ∈ s₀.log (ms ++ .poll p cancelled :: (before ++ rest)) := by
    rw [log_append]
    exact List.mem_append_left _ hn
  have hmem' : n' ∈ s₀.log (ms ++ .poll p cancelled :: (before ++ rest)) := by
    rw [← List.cons_append, ← List.append_assoc, log_append]
    exact List.mem_append_left _ hn'
  have heq : n' = n := (named_of_start hstart hids).distinct _ hmem' _ hmem (by rw [hsame, hevent])
  exact hp (by rw [← heq, Subject.key_injective hkey])

theorem exists_poll_of_stored {ms : List Move}
    (hcal : (s₀.run ms).clock.last ≤ Timestamp.latest.score)
    (hids : Uuid.Fresh ids (s₀.run ms).issued) (hpage : 0 < settings.pageSize) {σ : Subject}
    {x : Entry} (hx : x ∈ (s₀.run ms).store.liveEntries σ.key (s₀.run ms).wall)
    (hhorizon : x.score ≤ (s₀.run ms).clock.horizon (s₀.run ms).wall) :
    ∃ cursor page, (∀ id ∈ cursor, Http.IsPlain id) ∧ x.event ∈ page.events ∧
      (s₀.run ms).AnswersAlone
        { subject := σ, type := some x.event.type, lastEventId := cursor } page := by
  obtain ⟨before, after, hlive⟩ := List.append_of_mem hx
  have hreachable : (s₀.run ms).Reachable := ⟨settings, ids, wall, s₀, ms, hstart, rfl⟩
  have hs : (s₀.run ms).core.Sound (s₀.log ms) :=
    sound_run (sound_start? hstart) (linked_start? hstart) hcal
  have hn := named_of_start hstart hids
  have hseen := hs.follows_before hlive hhorizon
  have hsettings : (s₀.run ms).settings = settings := by
    obtain ⟨slots, rfl⟩ := start?_eq_some hstart
    exact settings_run _ ms
  let r : PollRequest :=
    { subject := σ, type := some x.event.type
      lastEventId := Core.cursorBehind (before.map Entry.event) }
  obtain ⟨least, as, hstarts, hsteps⟩ := hs.exists_ranged (q := r.query (s₀.run ms).settings)
    hn hcal hseen (Core.cursorOf_cursorBehind _)
  refine ⟨_, _, ?_, ?_, answersAlone_of_steps hreachable rfl hsteps⟩
  · intro id hid
    obtain ⟨e, he, rfl⟩ := Option.map_eq_some_iff.1 hid
    exact Uuid.isPlain_write (hn.wellFormed _ (hseen.posted e (List.mem_of_getLast? he)).1)
  · obtain ⟨rest, hbetween⟩ := hstarts.exists_between hs hlive hhorizon
    exact Query.mem_ranged_of_between hbetween rfl (hsettings ▸ hpage)

/-- **Readers of a type find what is published just if its recipient suits it.** The queues hold
what requests ask for. So users have nothing but order updates for customers in theirs, and
administrators none of these, as long as all requests name recipients that suit the type, as those
for orders do; but the first that does not can put an event where it is not looked for. Whom an
event is for looks for its type in the queue that the event went to just if that queue suits the
type: then a poll finds it there while it is live, and else no poll for its type ever shows it. -/
theorem filtered_reads_agree_iff (ms : List Move) :
    let s := s₀.run ms
    (∀ σ : Subject, ∀ x ∈ s.store.entries σ.key,
      ∃ r, .publish r ∈ ms ∧ r.blank? = none ∧ r.recipient = σ ∧ r.type = x.event.type) ∧
    (∀ r : PublishRequest, (∀ q, r ≠ .event q) → r.recipient.Suits r.type) ∧
    ((∀ r, .publish r ∈ ms → r.blank? = none → r.recipient.Suits r.type) → s.store.IsRouted) ∧
    (∀ r : PublishRequest, r.blank? = none → ¬ r.recipient.Suits r.type →
      ¬ (s.run [.publish r, .advance s.tasks.size .done]).store.IsRouted) ∧
    ∀ n ∈ s₀.log ms, ∀ c : Caller, c.id ≠ "" → c.Owns n.subject →
      (Subject.forType n.event.type (some c.id) = n.subject ↔ n.subject.Suits n.event.type) ∧
      (¬ n.subject.Suits n.event.type → ∀ q p, Http.eventsPoll c q = .ok p →
        p.type = some n.event.type → ∀ t cancelled id later page,
          s.poll? p cancelled = some (t, id) → Uuid.Fresh ids (t.run later).issued →
          (t.run later).pollResult? id = some (.ok page) → n.event ∉ page.events) ∧
      (n.subject.Suits n.event.type → s.clock.last ≤ Timestamp.latest.score →
        Uuid.Fresh ids s.issued → 0 < settings.pageSize →
        ∀ x ∈ s.store.liveEntries n.subject.key s.wall, x.event = n.event →
          x.score ≤ s.clock.horizon s.wall →
          ∃ q p page, Http.eventsPoll c q = .ok p ∧ p.type = some n.event.type ∧
            s.AnswersAlone p page ∧ n.event ∈ page.events) := by
  intro s
  refine ⟨fun σ x hx => exists_request_of_stored hstart ms hx,
    fun _ => PublishRequest.suits_of_order, isRouted_of_requests hstart, fun r hr hnot => ?_,
    fun n hn c hid howns => ⟨Subject.forType_eq_iff hid howns _, ?_, ?_⟩⟩
  · obtain ⟨x, hx, htype⟩ := s.exists_landed hr
    exact Store.not_isRouted_of_mem hx (htype ▸ hnot)
  -- Whoever asks for the type polls another queue, and that never holds the event.
  · intro hnot q p hp htype t cancelled id later page hpoll hfresh hpage
    refine notMem_of_subject_ne hstart hn (fun hsame => hnot ?_) hpoll hfresh hpage
    rw [Http.subject_of_eventsPoll hp htype] at hsame
    exact (Subject.forType_eq_iff hid howns _).1 hsame
  -- The poll goes on from the entry before, so that the event comes first on its page.
  · intro hsuits hcal hfresh hpagesize x hx hevent hhorizon
    obtain ⟨cursor, page, hplain, hmem, hanswer⟩ :=
      exists_poll_of_stored hstart hcal hfresh hpagesize hx hhorizon
    have hsubject := (Subject.forType_eq_iff hid howns n.event.type).2 hsuits
    have hallowed : (Subject.forType n.event.type (some c.id)).isAdmin = true →
        c.isAdmin = true := by
      rw [hsubject]
      rcases howns with huser | ⟨hadmin, -⟩
      · rw [huser]
        nofun
      · exact fun _ => hadmin
    rw [hevent] at hmem hanswer
    refine ⟨_, _, page, Http.eventsPoll_askFor n.event.type hplain hallowed, rfl, ?_, hmem⟩
    rw [hsubject]
    exact hanswer

end

/-- Two updates of orders are both found by their customer, each behind what stands before it. -/
theorem filtered_reads_agree_on_orders :
    let ms := [.publish (.orderStatusChange "O1" "U1" "PAID"), .advance 0 .done, .advance 0 .done,
      .publish (.orderStatusChange "O2" "U1" "SENT"), .advance 1 .done, .advance 1 .done]
    let s := (sample {} 1000).run ms
    let live := s.store.liveEntries (Subject.user "U1").key s.wall
    s.store.IsRouted ∧ live.map (·.event.entityId) = ["O1", "O2"] ∧
      ∀ x ∈ live, ∃ q p page, Http.eventsPoll ⟨"U1", "CUSTOMER"⟩ q = .ok p ∧
        p.type = some .customerOrderStatus ∧ s.AnswersAlone p page ∧ x.event ∈ page.events := by
  intro ms s live
  have hstart : start? {} sampleIds 1000 = some (sample {} 1000) := start?_sample (by decide) 1000
  obtain ⟨-, hsuits, hrouted, -, hfound⟩ := filtered_reads_agree_iff hstart ms
  have hlive : ∀ x ∈ live, x.event.type = .customerOrderStatus ∧
      x.score ≤ s.clock.horizon s.wall := by decide +kernel
  refine ⟨hrouted fun r hr _ => ?_, by decide +kernel, fun x hx => ?_⟩
  · have hr' : r = .orderStatusChange "O1" "U1" "PAID" ∨
        r = .orderStatusChange "O2" "U1" "SENT" := by
      simpa [ms] using hr
    rcases hr' with rfl | rfl <;> exact hsuits _ nofun
  · have hstored := (s.store.liveEntries_suffix _ _).subset hx
    obtain ⟨n, hn, hkey, hevent, -⟩ := (traced_of_start hstart ms).entry _ x hstored
    have hsubject : n.subject = .user "U1" := Subject.key_injective hkey
    obtain ⟨htype, hhorizon⟩ := hlive x hx
    have hfinds := (hfound n hn ⟨"U1", "CUSTOMER"⟩ (by decide) (.inl hsubject)).2.2
    rw [hsubject, hevent, htype] at hfinds
    exact hfinds (iff_of_true rfl nofun) (by decide +kernel)
      (Uuid.fresh_sampleIds (by decide +kernel)) (by decide) x hx rfl hhorizon

/-- An event described in full is put into the queue of a user who cannot ask for its type. -/
theorem filtered_reads_disagree :
    let r : PublishRequest := .event
      { type := .paymentStatus, action := .refresh, entityId := "P1", entityType := "PAYMENT"
        userId := some "U9" }
    let s := (sample {} 1000).run [.publish r, .advance 0 .done, .advance 0 .done]
    ¬ s.store.IsRouted ∧
      Subject.forType .paymentStatus (some "U9") ≠ .forRecipient (some "U9") ∧
      ∀ q p, Http.eventsPoll ⟨"U9", "CUSTOMER"⟩ q = .ok p → p.type ≠ some .paymentStatus := by
  intro r s
  refine ⟨?_, by decide, fun q p hp htype => ?_⟩
  · obtain ⟨x, hx, htype⟩ : ∃ x ∈ s.store.entries (Subject.user "U9").key,
        x.event.type = .paymentStatus := by decide +kernel
    refine Store.not_isRouted_of_mem hx fun hsuits => ?_
    cases htype.symm.trans (hsuits.2 nofun)
  · have hadmin := Http.subject_of_eventsPoll hp htype
    rcases Http.eventsPoll_eq_ok (by decide) hp with huser | ⟨hrole, -⟩
    · cases huser.symm.trans hadmin
    · exact absurd hrole (by decide)

end Service

end NotificationQueue
