import NotificationQueue.Proofs.Delivery.Poll
import NotificationQueue.Proofs.Service.Subjects

/-!
A client that follows its cursors. It polls one subject's queue, plainly or for long, one poll after
another, and names in each the last event of the answer before; between any two of its turns the
service may move in any way. Whatever it has received, it follows the queue.
-/
namespace NotificationQueue
set_option autoImplicit false

/-! ## Sessions -/

structure Client where
  subject : Subject
  type : Option EventType := none
  answers : List PollResponse := []
  /-- The task of the poll under way. -/
  poll : Option Nat := none

namespace Client

def received (c : Client) : List Event :=
  c.answers.flatMap (·.events)

def cursor (c : Client) : Option String :=
  c.answers.getLast?.map (·.lastEventId)

def request (c : Client) (longPoll : Bool) : PollRequest where
  subject := c.subject
  type := c.type
  lastEventId := c.cursor
  longPoll

end Client

/-- A service that one client polls, and what the service has published. -/
structure Session where
  service : Service
  posted : List Notice := []
  client : Client

inductive Turn where
  | move (m : Move)
  | ask (longPoll cancelled : Bool)
  | hear
  | leave

def Turn.IsForward : Turn → Prop
  | .move m => m.IsForward
  | _ => True

instance : (t : Turn) → Decidable t.IsForward
  | .move m => inferInstanceAs (Decidable m.IsForward)
  | .ask _ _ | .hear | .leave => isTrue trivial

namespace Session

def move (x : Session) (m : Move) : Session :=
  { x with service := x.service.move m, posted := x.posted ++ (x.service.posted? m).toList }

def setPoll (x : Session) (poll : Option Nat) : Session :=
  { x with client := { x.client with poll } }

/-- The client polls, unless it has a poll under way. -/
def ask (x : Session) (longPoll cancelled : Bool) : Session :=
  match x.client.poll with
  | some _ => x
  | none =>
    let request := x.client.request longPoll
    (x.move (.poll request cancelled)).setPoll ((x.service.poll? request cancelled).map Prod.snd)

def answer (x : Session) (r : PollResponse) : Session :=
  { x with client := { x.client with answers := x.client.answers ++ [r], poll := none } }

/-- The client takes the answer to its poll, if there is one. A failure leaves its cursor. -/
def hear (x : Session) : Session :=
  match x.client.poll.bind x.service.pollResult? with
  | some (.ok r) => x.answer r
  | some (.error _) => x.setPoll none
  | none => x

def leave (x : Session) : Session :=
  match x.client.poll with
  | some id => (x.move (.drop id)).setPoll none
  | none => x

def turn (x : Session) : Turn → Session
  | .move m => x.move m
  | .ask longPoll cancelled => x.ask longPoll cancelled
  | .hear => x.hear
  | .leave => x.leave

def run (x : Session) (ts : List Turn) : Session :=
  ts.foldl turn x

/-! ## The service of a session -/

def Moved (x y : Session) : Prop :=
  ∃ ms, y.service = x.service.run ms ∧ y.posted = x.posted ++ x.service.log ms

theorem moved_refl (x : Session) : x.Moved x :=
  ⟨[], rfl, (List.append_nil _).symm⟩

theorem moved_move (x : Session) (m : Move) : x.Moved (x.move m) := by
  refine ⟨[m], rfl, ?_⟩
  simp [move, Service.log]

theorem Moved.setPoll {x y : Session} (h : x.Moved y) (poll : Option Nat) :
    x.Moved (y.setPoll poll) := h

theorem Moved.trans {x y z : Session} (h : x.Moved y) (h' : y.Moved z) : x.Moved z := by
  obtain ⟨ms, hs, hp⟩ := h
  obtain ⟨ns, hs', hp'⟩ := h'
  refine ⟨ms ++ ns, ?_, ?_⟩
  · rw [hs', hs, Service.run_append]
  · rw [hp', hp, hs, Service.log_append, List.append_assoc]

theorem moved_ask (x : Session) (longPoll cancelled : Bool) :
    x.Moved (x.ask longPoll cancelled) := by
  unfold ask
  split
  · exact x.moved_refl
  · exact (x.moved_move _).setPoll _

theorem moved_hear (x : Session) : x.Moved x.hear := by
  unfold hear
  split
  · exact x.moved_refl
  · exact x.moved_refl
  · exact x.moved_refl

theorem moved_leave (x : Session) : x.Moved x.leave := by
  unfold leave
  split
  · exact (x.moved_move _).setPoll none
  · exact x.moved_refl

theorem moved_turn (x : Session) : ∀ t, x.Moved (x.turn t)
  | .move m => x.moved_move m
  | .ask longPoll cancelled => x.moved_ask longPoll cancelled
  | .hear => x.moved_hear
  | .leave => x.moved_leave

theorem moved_run (x : Session) (ts : List Turn) : x.Moved (x.run ts) := by
  induction ts generalizing x with
  | nil => exact x.moved_refl
  | cons t ts ih => exact (x.moved_turn t).trans (ih (x.turn t))

theorem turn_client (x : Session) (t : Turn) :
    (x.turn t).client.subject = x.client.subject ∧ (x.turn t).client.type = x.client.type := by
  cases t with
  | move m => exact ⟨rfl, rfl⟩
  | ask longPoll cancelled =>
    change (x.ask longPoll cancelled).client.subject = _ ∧
      (x.ask longPoll cancelled).client.type = _
    unfold ask
    split <;> exact ⟨rfl, rfl⟩
  | hear =>
    change x.hear.client.subject = _ ∧ x.hear.client.type = _
    unfold hear
    split <;> exact ⟨rfl, rfl⟩
  | leave =>
    change x.leave.client.subject = _ ∧ x.leave.client.type = _
    unfold leave
    split <;> exact ⟨rfl, rfl⟩

theorem run_client (x : Session) (ts : List Turn) :
    (x.run ts).client.subject = x.client.subject ∧ (x.run ts).client.type = x.client.type := by
  induction ts generalizing x with
  | nil => exact ⟨rfl, rfl⟩
  | cons t ts ih =>
    obtain ⟨hsubject, htype⟩ := ih (x.turn t)
    exact ⟨hsubject.trans (x.turn_client t).1, htype.trans (x.turn_client t).2⟩

/-! ## The invariant -/

/-- What holds of every session: the client follows the queue, each answer names the last event that
was received by then, and the poll under way goes on from there. -/
structure Sound (x : Session) : Prop where
  linked : x.service.Linked
  core : x.service.core.Sound x.posted
  named : Core.Named x.posted
  calendar : x.service.clock.last ≤ Timestamp.latest.score
  follows : x.service.core.Follows x.posted x.client.subject x.client.type x.client.received
  answered : ∀ n r, x.client.answers[n]? = some r → r.lastEventId =
    (Core.cursorBehind ((x.client.answers.take (n + 1)).flatMap (·.events))).getD ""
  poll : ∀ id, x.client.poll = some id → ∃ q u,
    q.subject = x.client.subject ∧ q.type = x.client.type ∧
    q.cursor = Core.cursorBehind x.client.received ∧ x.service.tasks[id]? = some u ∧
    u.GoesOn x.service x.posted q x.client.received

variable {x : Session}

theorem Sound.ready (h : x.Sound) {q : Query} (hsubject : q.subject = x.client.subject)
    (htype : q.type = x.client.type)
    (hcursor : q.cursor = Core.cursorBehind x.client.received) :
    x.service.core.Ready x.posted q x.client.received where
  sound := h.core
  named := h.named
  calendar := h.calendar
  follows := hsubject ▸ htype ▸ h.follows
  cursor := hcursor

theorem Sound.cursorOf_cursor (h : x.Sound) :
    cursorOf x.client.cursor = Core.cursorBehind x.client.received := by
  unfold Client.cursor
  cases hl : x.client.answers.getLast? with
  | none =>
    rw [List.getLast?_eq_none_iff] at hl
    rw [Client.received, hl]
    rfl
  | some r =>
    have hlast := hl
    rw [List.getLast?_eq_getElem?] at hl
    have hanswer := h.answered _ r hl
    have hpos : 0 < x.client.answers.length := by
      cases hx : x.client.answers with
      | nil =>
        rw [hx] at hlast
        cases hlast
      | cons a rest => exact Nat.succ_pos _
    rw [Nat.sub_add_cancel hpos, List.take_length] at hanswer
    rw [Option.map_some, hanswer]
    change cursorOf (some ((Core.cursorBehind x.client.received).getD "")) = _
    cases hc : Core.cursorBehind x.client.received with
    | none => rfl
    | some text =>
      have hself := Core.cursorOf_cursorBehind x.client.received
      rw [hc] at hself
      exact hself

theorem Sound.move (h : x.Sound) {m : Move} (hm : m.IsForward)
    (hcal : (x.service.move m).clock.last ≤ Timestamp.latest.score)
    (hn : Core.Named (x.move m).posted) : (x.move m).Sound where
  linked := h.linked.move m
  core := h.core.step (Service.step_move h.linked m) hcal
  named := hn
  calendar := hcal
  follows := h.follows.step h.core (Service.step_move h.linked m) hm hcal
  answered := h.answered
  poll id hid := by
    obtain ⟨q, u, hsubject, htype, hcursor, hu, hgoes⟩ := h.poll id hid
    have hready := h.ready hsubject htype hcursor
    obtain ⟨v, hv, hgoes'⟩ := Service.goesOn_move h.linked hready hm hcal hu hgoes
    exact ⟨q, v, hsubject, htype, hcursor, hv, hgoes'⟩

theorem Sound.setPoll_none (h : x.Sound) : (x.setPoll none).Sound :=
  ⟨h.linked, h.core, h.named, h.calendar, h.follows, h.answered, nofun⟩

theorem Sound.ask (h : x.Sound) (longPoll cancelled : Bool)
    (hcal : (x.ask longPoll cancelled).service.clock.last ≤ Timestamp.latest.score)
    (hn : Core.Named (x.ask longPoll cancelled).posted) : (x.ask longPoll cancelled).Sound := by
  unfold Session.ask at hcal hn ⊢
  cases hpoll : x.client.poll with
  | some id => exact h
  | none =>
    rw [hpoll] at hcal hn
    dsimp only at hcal hn ⊢
    have hmoved := h.move (m := .poll (x.client.request longPoll) cancelled) (Int.le_refl 0) hcal hn
    refine ⟨hmoved.linked, hmoved.core, hmoved.named, hmoved.calendar, hmoved.follows,
      hmoved.answered, fun id hid => ?_⟩
    obtain ⟨⟨t, id'⟩, hsome, rfl⟩ := Option.map_eq_some_iff.1 hid
    have hservice : x.service.move (.poll (x.client.request longPoll) cancelled) = t := by
      simp only [Service.move, hsome]
    have hposted : x.posted ++ [] = x.posted := List.append_nil _
    obtain ⟨v, hv, hgoes⟩ := Service.poll?_goesOn hsome (h.ready rfl rfl h.cursorOf_cursor)
    rw [← hservice] at hv hgoes
    rw [← hposted] at hgoes
    exact ⟨_, v, rfl, rfl, h.cursorOf_cursor, hv, hgoes⟩

theorem Sound.answer (h : x.Sound) {r : PollResponse} {b : Batch} {q : Query}
    (hsubject : q.subject = x.client.subject) (htype : q.type = x.client.type)
    (hb : x.service.core.Delivers x.posted q x.client.received b)
    (hevents : r.events = b.events) (hlast : r.lastEventId = b.nextCursor.getD "") :
    (x.answer r).Sound := by
  have hreceived : (x.answer r).client.received = x.client.received ++ b.events := by
    simp [Session.answer, Client.received, hevents]
  refine ⟨h.linked, h.core, h.named, h.calendar, ?_, fun n r' hr' => ?_, nofun⟩
  · rw [hreceived]
    have hfollows := hb.1
    rw [hsubject, htype] at hfollows
    exact hfollows
  · change (x.client.answers ++ [r])[n]? = some r' at hr'
    change r'.lastEventId = (Core.cursorBehind
      (((x.client.answers ++ [r]).take (n + 1)).flatMap (·.events))).getD ""
    -- An answer heard before, the one heard now, or none.
    rcases Nat.lt_trichotomy n x.client.answers.length with hn | hn | hn
    · rw [List.getElem?_append_left hn] at hr'
      rw [List.take_append_of_le_length hn]
      exact h.answered n r' hr'
    · subst hn
      rw [List.getElem?_concat_length] at hr'
      cases hr'
      rw [List.take_of_length_le (by simp)]
      change _ = (Core.cursorBehind (x.answer r).client.received).getD ""
      rw [hreceived, hlast, hb.2]
    · rw [List.getElem?_eq_none (by simp; omega)] at hr'
      cases hr'

theorem Sound.hear (h : x.Sound) : x.hear.Sound := by
  unfold Session.hear
  cases hpoll : x.client.poll with
  | none => exact h
  | some id =>
    rw [Option.bind_some]
    split
    · next r hr =>
      obtain ⟨q, u, hsubject, htype, hcursor, hu, hgoes⟩ := h.poll id hpoll
      have hready := h.ready hsubject htype hcursor
      obtain ⟨b, hb, hevents, hlast⟩ := Service.delivers_of_pollResult? hu hgoes hready hr
      exact h.answer hsubject htype hb hevents hlast
    · exact h.setPoll_none
    · exact h

theorem Sound.leave (h : x.Sound)
    (hcal : x.leave.service.clock.last ≤ Timestamp.latest.score)
    (hn : Core.Named x.leave.posted) : x.leave.Sound := by
  unfold Session.leave at hcal hn ⊢
  cases hpoll : x.client.poll with
  | none => exact h
  | some id =>
    rw [hpoll] at hcal hn
    exact (h.move (m := .drop id) (Int.le_refl 0) hcal hn).setPoll_none

/-- **Every turn keeps what holds of a session**, as long as the wall clock does not go back and the
calendar reaches. -/
theorem Sound.turn (h : x.Sound) {t : Turn} (ht : t.IsForward)
    (hcal : (x.turn t).service.clock.last ≤ Timestamp.latest.score)
    (hn : Core.Named (x.turn t).posted) : (x.turn t).Sound := by
  cases t with
  | move m => exact h.move ht hcal hn
  | ask longPoll cancelled => exact h.ask longPoll cancelled hcal hn
  | hear => exact h.hear
  | leave => exact h.leave hcal hn

/-! ## Runs -/

theorem Moved.linked {y : Session} (h : x.Moved y) (hl : x.service.Linked) :
    y.service.Linked := by
  obtain ⟨ms, hs, -⟩ := h
  rw [hs]
  exact hl.run ms

theorem Moved.last_le {y : Session} (h : x.Moved y) (hl : x.service.Linked)
    (hcal : y.service.clock.last ≤ Timestamp.latest.score) :
    x.service.clock.last ≤ y.service.clock.last := by
  obtain ⟨ms, hs, -⟩ := h
  rw [hs] at hcal ⊢
  exact Service.last_le_run hl hcal

theorem Moved.named {y : Session} (h : x.Moved y) (hn : Core.Named y.posted) :
    Core.Named x.posted := by
  obtain ⟨ms, -, hp⟩ := h
  have hsub : ∀ n ∈ x.posted, n ∈ y.posted := fun n hmem => by
    rw [hp]
    exact List.mem_append_left _ hmem
  exact ⟨fun n hmem => hn.wellFormed n (hsub n hmem),
    fun m hm n hmem => hn.distinct m (hsub m hm) n (hsub n hmem)⟩

theorem Sound.run (h : x.Sound) {ts : List Turn} (hts : ∀ t ∈ ts, t.IsForward)
    (hcal : (x.run ts).service.clock.last ≤ Timestamp.latest.score)
    (hn : Core.Named (x.run ts).posted) : (x.run ts).Sound := by
  induction ts generalizing x with
  | nil => exact h
  | cons t ts ih =>
    have hrest := (x.turn t).moved_run ts
    have hlast := hrest.last_le ((x.moved_turn t).linked h.linked) hcal
    have hturn := h.turn (hts t List.mem_cons_self) (Int.le_trans hlast hcal) (hrest.named hn)
    exact ih hturn (fun t' ht' => hts t' (List.mem_cons_of_mem t ht')) hcal hn

def start (s : Service) (subject : Subject) (type : Option EventType) : Session :=
  { service := s, client := { subject, type } }

variable {settings : QueueSettings} {ids : Nat → Uuid} {wall : Score} {s : Service}

theorem sound_start (hstart : Service.start? settings ids wall = some s) (subject : Subject)
    (type : Option EventType) : (start s subject type).Sound where
  linked := Service.linked_start? hstart
  core := Service.sound_start? hstart
  named := ⟨nofun, nofun⟩
  calendar := by
    obtain ⟨slots, rfl⟩ := Service.start?_eq_some hstart
    rw [Timestamp.latest_score]
    exact Int.le_of_lt (by decide : (0 : Int) < 8210266876799999999)
  follows := Core.follows_nil _ _ _ _
  answered := nofun
  poll := nofun

end Session

/-! ## Ids -/

/-- The first ids of a source can be written and read, and are different from each other. -/
structure Uuid.Fresh (ids : Nat → Uuid) (count : Nat) : Prop where
  wellFormed : ∀ i < count, (ids i).IsWellFormed
  distinct : ∀ i < count, ∀ j < count, ids i = ids j → i = j

theorem Uuid.fresh_sampleIds {count : Nat} (h : count ≤ 16) :
    Uuid.Fresh Service.sampleIds count where
  wellFormed i _ := by
    refine ⟨List.length_replicate, fun d hd => ?_⟩
    rw [(List.mem_replicate.1 hd).2]
    exact Nat.mod_lt i (by decide)
  distinct i hi j hj heq := by
    have hdigit : i % 16 = j % 16 := by
      have := congrArg (fun id : Uuid => id.digits[0]?) heq
      simpa [Service.sampleIds, Uuid.digitCount] using this
    omega

theorem Core.named_of_fresh {log : List Notice} {ids : Nat → Uuid} {count : Nat}
    (h : log.map (·.event.id) = (List.range count).map ids) (hids : Uuid.Fresh ids count) :
    Core.Named log := by
  have hlength : log.length = count := by
    have := congrArg List.length h
    simpa using this
  have hget : ∀ i (hi : i < log.length), log[i].event.id = ids i := by
    intro i hi
    have := congrArg (·[i]?) h
    simpa [hi, hlength ▸ hi] using this
  refine ⟨fun n hn => ?_, fun m hm n hn heq => ?_⟩
  · obtain ⟨i, hi, rfl⟩ := List.getElem_of_mem hn
    rw [hget i hi]
    exact hids.wellFormed i (hlength ▸ hi)
  · obtain ⟨i, hi, rfl⟩ := List.getElem_of_mem hm
    obtain ⟨j, hj, rfl⟩ := List.getElem_of_mem hn
    rw [hget i hi, hget j hj] at heq
    have hij := hids.distinct i (hlength ▸ hi) j (hlength ▸ hj) heq
    subst hij
    rfl

theorem Service.named_of_start {settings : QueueSettings} {ids : Nat → Uuid} {wall : Score}
    {s : Service} (h : start? settings ids wall = some s) {ms : List Move}
    (hids : Uuid.Fresh ids (s.run ms).issued) : Core.Named (s.log ms) := by
  have hlog := (traced_of_start h ms).ids
  have hsource : s.core.ids = ids := by
    obtain ⟨slots, rfl⟩ := start?_eq_some h
    rfl
  rw [show (s.run ms).core.ids = ids from (ids_run (linked_start? h) ms).trans hsource] at hlog
  exact Core.named_of_fresh hlog hids

namespace Session

/-- A client of a subject with a filter has come to a session: it started with the service, and the
wall clock has not gone back. -/
def Reached (x : Session) (subject : Subject) (type : Option EventType) : Prop :=
  ∃ settings ids wall s ts, Service.start? settings ids wall = some s ∧
    (∀ t ∈ ts, Turn.IsForward t) ∧ (start s subject type).run ts = x ∧
    Uuid.Fresh ids x.service.issued

variable {x : Session} {subject : Subject} {type : Option EventType}

theorem Reached.client (h : x.Reached subject type) :
    x.client.subject = subject ∧ x.client.type = type := by
  obtain ⟨settings, ids, wall, s, ts, -, -, rfl, -⟩ := h
  exact run_client (start s subject type) ts

theorem Reached.sound (h : x.Reached subject type)
    (hcal : x.service.clock.last ≤ Timestamp.latest.score) : x.Sound := by
  obtain ⟨settings, ids, wall, s, ts, hstart, hts, rfl, hids⟩ := h
  refine (sound_start hstart subject type).run hts hcal ?_
  obtain ⟨ms, hs, hp⟩ := (start s subject type).moved_run ts
  rw [hs] at hids
  rw [hp]
  exact Service.named_of_start hstart hids

def sample (settings : QueueSettings) (wall : Score) (ts : List Turn) : Session :=
  (start (Service.sample settings wall) .admin none).run ts

theorem reached_sample {settings : QueueSettings} {wall : Score} {ts : List Turn}
    (hslots : settings.writeSlots ≤ Slots.maxCapacity) (hts : ∀ t ∈ ts, Turn.IsForward t)
    (hissued : (sample settings wall ts).service.issued ≤ 16) :
    (sample settings wall ts).Reached .admin none :=
  ⟨settings, Service.sampleIds, wall, _, ts, Service.start?_sample hslots wall, hts, rfl,
    Uuid.fresh_sampleIds hissued⟩

end Session

end NotificationQueue
