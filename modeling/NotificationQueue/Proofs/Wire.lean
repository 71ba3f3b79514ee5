import NotificationQueue.Poll
import NotificationQueue.Proofs.Json.Decoding
import NotificationQueue.Proofs.Time.Timestamp
import NotificationQueue.Proofs.Uuid
import NotificationQueue.Publish
import NotificationQueue.Token.Claims

/-!
Records on the wire: events, requests to publish, answers to polls, claims of tokens and settings of
the queue. What is written of a record is read as the record, whatever its texts and its metadata
hold, as far as the nesting is allowed.
-/
namespace NotificationQueue
set_option autoImplicit false

open Json

theorem Json.Decode.text?_write {α : Type} {decode : Decode α} {v : Json} (hv : v.IsExact) :
    decode.text? (write v) = decode maxNesting (tree v) := by
  rw [Decode.text?, read?_write hv]
  rfl

variable {room : Nat}

/-! ## Events -/

namespace Event

/-- The event is one that can be held: its id has the digits of an id, its metadata has no doubles,
its timestamp lies in the calendar and its retention fits a word. -/
structure IsHeld (e : Event) : Prop where
  id : e.id.IsWellFormed
  metadata : IsExact (.obj e.metadata)
  timestamp : e.timestamp.IsHeld
  ttl : e.ttl ≤ Text.maxWord64

/-- The event with its timestamp as it is read. -/
def settled (e : Event) : Event :=
  { e with timestamp := e.timestamp.settled }

variable {e : Event}

theorem settled_eq_self_iff : e.settled = e ↔ e.timestamp.IsUniversal := by
  rw [← Timestamp.settled_eq_self_iff]
  exact ⟨congrArg timestamp, fun h => by rw [settled, h]⟩

theorem score_settled (e : Event) : e.settled.score = e.score :=
  Timestamp.score_settled e.timestamp

theorem isExact_toJson (h : e.IsHeld) : e.toJson.IsExact := by
  refine ⟨by simp, ?_⟩
  exact ⟨trivial, trivial, trivial, trivial, trivial, h.metadata, trivial, isExact_word h.ttl,
    trivial⟩

theorem depth_toJson (e : Event) : e.toJson.depth = depth (.obj e.metadata) + 1 := by
  simp [toJson, depth, depthOfMembers]

theorem decode_tree (h : e.IsHeld) : decode (room + 1) (tree e.toJson) =
    if e.toJson.depth ≤ room + 1 then some e.settled else none := by
  rw [depth_toJson, decode, toJson]
  refine bind_fields?_tree (by simp [fields]) (by simp) fun fs hholds => ?_
  simp [hholds.required, hholds.orElse, lookup_cons_of_ne, lookup_cons_self, decodeType,
    decodeAction, decodeText_tree, decodeName_tree, EventType.named?_name, EventAction.named?_name,
    Uuid.read?_write h.id, Timestamp.read?_write h.timestamp, decodeMetadata_tree h.metadata,
    decodeWord_tree h.ttl]
  split <;> rfl

end Event

/-! ## Requests -/

namespace EventRequest

variable {r : EventRequest}

theorem isExact_toJson (h : IsExact (.obj r.metadata)) : r.toJson.IsExact := by
  unfold toJson record
  cases r.userId <;> simpa [IsExact, MembersExact] using h

theorem depth_toJson (r : EventRequest) : r.toJson.depth = depth (.obj r.metadata) + 1 := by
  unfold toJson record
  cases r.userId <;> simp [depth, depthOfMembers]

theorem decode_tree (h : IsExact (.obj r.metadata)) : decode (room + 1) (tree r.toJson) =
    if r.toJson.depth ≤ room + 1 then some r else none := by
  rw [depth_toJson, decode, toJson]
  refine bind_fields?_record (by simp [fields]) (by simp) fun fs hholds => ?_
  have huser : fs.nullable "userId" decodeText = some r.userId :=
    hholds.nullable .str (by simp [lookup_present_cons_of_ne, lookup_present_cons_self]) nofun
      fun s _ => decodeText_tree s
  simp [huser, hholds.required, hholds.orElse, lookup_present_cons_of_ne,
    lookup_present_cons_self, Event.decodeType, Event.decodeAction, decodeText_tree,
    decodeName_tree, EventType.named?_name, EventAction.named?_name, decodeMetadata_tree h]
  split <;> rfl

end EventRequest

/-! ## Answers to polls -/

namespace PollResponse

structure IsHeld (r : PollResponse) : Prop where
  events : ∀ e ∈ r.events, e.IsHeld
  pollInterval : r.pollInterval ≤ Text.maxWord64

variable {r : PollResponse}

theorem isExact_toJson (h : r.IsHeld) : r.toJson.IsExact := by
  have hevents : AreExact (r.events.map Event.toJson) := areExact_iff.2 (by
    simpa using fun e he => Event.isExact_toJson (h.events e he))
  exact ⟨by simp, hevents, trivial, isExact_word h.pollInterval, trivial, trivial⟩

theorem depth_toJson (r : PollResponse) :
    r.toJson.depth = depthOfItems (r.events.map Event.toJson) + 2 := by
  simp [toJson, depth, depthOfMembers]

theorem decodeList_tree (h : r.IsHeld) :
    decodeList Event.decode (room + 2) (tree (.arr (r.events.map Event.toJson))) =
      if depthOfItems (r.events.map Event.toJson) ≤ room + 1 then
        some (r.events.map Event.settled) else none := by
  split
  · next hroom =>
    refine Json.decodeList_tree fun e he => ?_
    have hdepth := depthOfItems_le_iff.1 hroom _ (List.mem_map_of_mem he)
    rw [Event.decode_tree (h.events e he), if_pos hdepth]
  · next hroom =>
    obtain ⟨e, he, hdepth⟩ : ∃ e ∈ r.events, ¬ e.toJson.depth ≤ room + 1 := by
      simpa [depthOfItems_le_iff] using hroom
    refine decodeList_eq_none he ?_
    rw [Event.decode_tree (h.events e he), if_neg hdepth]

theorem decode_tree (h : r.IsHeld) : decode (room + 3) (tree r.toJson) =
    if r.toJson.depth ≤ room + 3 then some { r with events := r.events.map Event.settled }
    else none := by
  rw [depth_toJson, decode, toJson]
  refine bind_fields?_tree (by simp [fields]) (by simp) fun fs hholds => ?_
  simp [hholds.required, lookup_cons_of_ne, lookup_cons_self, decodeList_tree h,
    decodeText_tree, decodeWord_tree h.pollInterval, decodeBool_tree]
  split <;> rfl

theorem map_settled_eq_iff : r.events.map Event.settled = r.events ↔
    ∀ e ∈ r.events, e.timestamp.IsUniversal := by
  have hmap : r.events.map Event.settled = r.events.map id ↔
      ∀ e ∈ r.events, e.settled = id e := List.map_inj_left
  rw [List.map_id] at hmap
  exact hmap.trans (forall₂_congr fun e _ => Event.settled_eq_self_iff)

end PollResponse

/-! ## Claims -/

namespace Token.Claims

structure IsHeld (c : Claims) : Prop where
  expiry : ∀ n ∈ c.expiry, IsSigned64 n
  issuedAt : ∀ n ∈ c.issuedAt, IsSigned64 n

variable {c : Claims}

theorem isExact_toJson (h : c.IsHeld) : c.toJson.IsExact := by
  obtain ⟨subject, type, role, expiry, issuedAt⟩ := c
  have hexpiry : ∀ n ∈ expiry, IsExact (.int n) := fun n hn => isExact_signed (h.expiry n hn)
  have hissued : ∀ n ∈ issuedAt, IsExact (.int n) := fun n hn => isExact_signed (h.issuedAt n hn)
  unfold toJson record
  cases expiry <;> cases issuedAt <;> simp_all [IsExact, MembersExact]

theorem depth_toJson (c : Claims) : c.toJson.depth = 1 := by
  unfold toJson record
  cases c.expiry <;> cases c.issuedAt <;> simp [depth, depthOfMembers]

theorem decode_tree (h : c.IsHeld) : decode (room + 1) (tree c.toJson) = some c := by
  rw [decode, toJson]
  refine bind_fields?_record (by simp [fields]) (by simp) fun fs hholds => ?_
  have hexpiry : fs.nullable "exp" decodeSigned = some c.expiry :=
    hholds.nullable .int (by simp [lookup_present_cons_of_ne, lookup_present_cons_self]) nofun
      fun n hn => decodeSigned_tree (h.expiry n hn)
  have hissued : fs.nullable "iat" decodeSigned = some c.issuedAt :=
    hholds.nullable .int (by simp [lookup_present_cons_of_ne, lookup_present_cons_self]) nofun
      fun n hn => decodeSigned_tree (h.issuedAt n hn)
  simp [hexpiry, hissued, hholds.required, hholds.orElse, lookup_present_cons_of_ne,
    lookup_present_cons_self, decodeText_tree]

end Token.Claims

/-! ## Settings -/

namespace QueueSettings

def times (s : QueueSettings) : List Duration :=
  [s.shortPollInterval, s.longPollInterval, s.longPollTimeout, s.tickInterval,
    s.healthCheckTimeout, s.shutdownTimeout]

structure IsHeld (s : QueueSettings) : Prop where
  pageSize : s.pageSize ≤ Text.maxWord64
  writeSlots : s.writeSlots ≤ Text.maxWord64
  retention : ∃ n ≤ Text.maxWord64, s.retention = .ofSeconds n
  times : ∀ d ∈ s.times, ∃ n ≤ Text.maxWord64, d = .ofMillis n

variable {s : QueueSettings} {d : Duration}

theorem millis_le (h : ∃ n ≤ Text.maxWord64, d = .ofMillis n) : d.millis ≤ Text.maxWord64 := by
  obtain ⟨n, hn, rfl⟩ := h
  rwa [Duration.millis_ofMillis]

theorem decodeMillis_tree (h : ∃ n ≤ Text.maxWord64, d = .ofMillis n) :
    decodeMillis room (tree (.int d.millis)) = some d := by
  rw [decodeMillis, decodeWord_tree (millis_le h), Option.map_some]
  obtain ⟨n, -, rfl⟩ := h
  rw [Duration.millis_ofMillis]

theorem seconds_le (h : ∃ n ≤ Text.maxWord64, d = .ofSeconds n) : d.seconds ≤ Text.maxWord64 := by
  obtain ⟨n, hn, rfl⟩ := h
  rwa [Duration.seconds_ofSeconds]

theorem decodeSeconds_tree (h : ∃ n ≤ Text.maxWord64, d = .ofSeconds n) :
    decodeSeconds room (tree (.int d.seconds)) = some d := by
  rw [decodeSeconds, decodeWord_tree (seconds_le h), Option.map_some]
  obtain ⟨n, -, rfl⟩ := h
  rw [Duration.seconds_ofSeconds]

theorem exists_toJson (h : s.IsHeld) : ∃ v, s.toJson? = some v ∧ v.IsExact ∧
    ∀ room, decode (room + 1) (tree v) = some s := by
  have hword : ∀ d ∈ s.times, d.millis ≤ Text.maxWord64 := fun d hd => millis_le (h.times d hd)
  have hall : s.times.all (·.millis ≤ Text.maxWord64) = true := by simpa using hword
  refine ⟨_, if_pos hall, ⟨by simp, ?_⟩, fun room => ?_⟩
  · simp only [times, List.forall_mem_cons] at hword
    obtain ⟨hshort, hlong, htimeout, htick, hhealth, hshutdown, -⟩ := hword
    exact ⟨isExact_word h.pageSize, isExact_word (seconds_le h.retention),
      isExact_word h.writeSlots, isExact_word hshort, isExact_word hlong, isExact_word htimeout,
      isExact_word htick, isExact_word hhealth, isExact_word hshutdown, trivial⟩
  · rw [decode]
    refine bind_fields?_tree (by simp [fields]) (by simp) fun fs hholds => ?_
    have htimes := h.times
    simp only [times, List.forall_mem_cons] at htimes
    simp [hholds.required, lookup_cons_of_ne, lookup_cons_self, decodeWord_tree h.pageSize,
      decodeWord_tree h.writeSlots, decodeSeconds_tree h.retention, decodeMillis_tree, htimes]

end QueueSettings

/-! ## All records -/

/-- **What is written of a record is read as the record** just if its text is not nested too deeply
and its leap seconds end minutes, as those do that are read and those that a clock gives; a leap
second elsewhere is read as the second that follows, which leaves the score of an event. -/
theorem records_read_as_written :
    (∀ e : Event, e.IsHeld →
      (Event.decode.text? (write e.toJson) = some e ↔
        e.toJson.depth ≤ maxNesting ∧ e.timestamp.IsUniversal) ∧
      (e.toJson.depth ≤ maxNesting →
        ∃ read, Event.decode.text? (write e.toJson) = some read ∧ read.score = e.score)) ∧
    (∀ r : EventRequest, IsExact (.obj r.metadata) →
      (EventRequest.decode.text? (write r.toJson) = some r ↔ r.toJson.depth ≤ maxNesting)) ∧
    (∀ r : PollResponse, r.IsHeld →
      (PollResponse.decode.text? (write r.toJson) = some r ↔
        r.toJson.depth ≤ maxNesting ∧ ∀ e ∈ r.events, e.timestamp.IsUniversal)) ∧
    (∀ c : Token.Claims, c.IsHeld → Token.Claims.decode.text? (write c.toJson) = some c) ∧
    (∀ s : QueueSettings, s.IsHeld →
      ∃ v, s.toJson? = some v ∧ QueueSettings.decode.text? (write v) = some s) ∧
    (∀ text t, Timestamp.read? text = some t → t.IsHeld ∧ t.IsUniversal) ∧
    ∀ micros, (Timestamp.ofMicros micros).IsHeld ∧ (Timestamp.ofMicros micros).IsUniversal := by
  refine ⟨?event, ?request, ?response, ?claims, ?settings, fun _ _ => Timestamp.isHeld_of_read?,
    Timestamp.isHeld_ofMicros⟩
  case event =>
    intro e he
    have hread : Event.decode.text? (write e.toJson) =
        if e.toJson.depth ≤ maxNesting then some e.settled else none := by
      rw [Decode.text?_write (Event.isExact_toJson he)]
      exact Event.decode_tree he
    rw [hread, Option.ite_none_right_eq_some, Option.some_inj, Event.settled_eq_self_iff]
    exact ⟨.rfl, fun hdepth => ⟨e.settled, if_pos hdepth, e.score_settled⟩⟩
  case request =>
    intro r hr
    have hread : EventRequest.decode.text? (write r.toJson) =
        if r.toJson.depth ≤ maxNesting then some r else none := by
      rw [Decode.text?_write (EventRequest.isExact_toJson hr)]
      exact EventRequest.decode_tree hr
    rw [hread, Option.ite_none_right_eq_some]
    exact and_iff_left rfl
  case response =>
    intro r hr
    have hread : PollResponse.decode.text? (write r.toJson) =
        if r.toJson.depth ≤ maxNesting then some { r with events := r.events.map Event.settled }
        else none := by
      rw [Decode.text?_write (PollResponse.isExact_toJson hr)]
      exact PollResponse.decode_tree hr
    have hsame : { r with events := r.events.map Event.settled } = r ↔
        ∀ e ∈ r.events, e.timestamp.IsUniversal := by
      rw [← PollResponse.map_settled_eq_iff]
      exact ⟨congrArg PollResponse.events, fun h => by rw [h]⟩
    rw [hread, Option.ite_none_right_eq_some, Option.some_inj, hsame]
  case claims =>
    intro c hc
    rw [Decode.text?_write (Token.Claims.isExact_toJson hc)]
    exact Token.Claims.decode_tree hc
  case settings =>
    intro s hs
    obtain ⟨v, hv, hexact, hdecode⟩ := QueueSettings.exists_toJson hs
    refine ⟨v, hv, ?_⟩
    rw [Decode.text?_write hexact]
    exact hdecode _

/-- An event of the year before year zero, in a leap second, with a text of quotes and control
characters and with nested metadata of the least and the greatest numbers. -/
def ancient : Event where
  id := ⟨List.replicate 31 0 ++ [15]⟩
  type := .inventoryUpdate
  action := .noAction
  entityId := "\"\\\n\x00\x1f \u00e9"
  entityType := ""
  metadata := [("a", .arr [.obj [("\t", .int (-9223372036854775808)), ("", .null)], .bool true]),
    ("b", .int 18446744073709551615)]
  timestamp := ⟨-62167219201, 1500000001⟩
  ttl := Text.maxWord64

theorem ancient_read_as_written :
    let request : EventRequest :=
      ⟨.systemNotification, .remove, "\"", "\n", some "\x00", ancient.metadata⟩
    let response : PollResponse := ⟨[ancient, ancient], "\t", 30000, true⟩
    let claims : Token.Claims := ⟨"\\", "", "", none, some (-1)⟩
    ancient.timestamp.write = "-0001-12-31T23:59:60.500000001Z" ∧
      Event.decode.text? (write ancient.toJson) = some ancient ∧
      EventRequest.decode.text? (write request.toJson) = some request ∧
      PollResponse.decode.text? (write response.toJson) = some response ∧
      Token.Claims.decode.text? (write claims.toJson) = some claims ∧
      ∃ v, ({} : QueueSettings).toJson? = some v ∧
        QueueSettings.decode.text? (write v) = some {} := by
  intro request response claims
  obtain ⟨hevent, hrequest, hresponse, hclaims, hsettings, -, -⟩ := records_read_as_written
  have hmetadata : IsExact (.obj ancient.metadata) := by
    simp [ancient, IsExact, AreExact, MembersExact, Text.maxSigned64, Text.maxWord64]
  have hheld : ancient.IsHeld :=
    ⟨⟨by decide, by decide⟩, hmetadata, ⟨by decide, by decide⟩, by decide⟩
  have huniversal : ancient.timestamp.IsUniversal := fun _ => by decide
  have hdepth : ancient.toJson.depth ≤ maxNesting := by decide +kernel
  have hread := (hevent ancient hheld).1.2 ⟨hdepth, huniversal⟩
  have hrequest := (hrequest request hmetadata).2 (by decide +kernel)
  have hresponse := (hresponse response ⟨by simpa [response] using hheld, by decide⟩).2
    ⟨by decide +kernel, by simpa [response] using huniversal⟩
  have hclaims := hclaims claims ⟨by simp [claims], by
    rintro n ⟨⟩
    exact ⟨by decide, by decide⟩⟩
  have htimes : ∀ d ∈ ({} : QueueSettings).times, ∃ n ≤ Text.maxWord64, d = .ofMillis n := by
    simp only [QueueSettings.times, List.forall_mem_cons]
    exact ⟨⟨5000, by decide, rfl⟩, ⟨30000, by decide, rfl⟩, ⟨25000, by decide, rfl⟩,
      ⟨1000, by decide, rfl⟩, ⟨2000, by decide, rfl⟩, ⟨10000, by decide, rfl⟩, by simp⟩
  have hsettings := hsettings {} ⟨by decide, by decide, ⟨300, by decide, rfl⟩, htimes⟩
  exact ⟨by decide +kernel, hread, hrequest, hresponse, hclaims, hsettings⟩

def nested : Nat → Json
  | 0 => .null
  | n + 1 => .arr [nested n]

theorem isExact_nested (n : Nat) : (nested n).IsExact := by
  induction n with
  | zero => trivial
  | succ n ih => exact ⟨ih, trivial⟩

theorem depth_nested (n : Nat) : (nested n).depth = n := by
  induction n with
  | zero => rfl
  | succ n ih => rw [nested, depth, depthOfItems, depthOfItems, ih, Nat.max_zero]

/-- A leap second at the start of a minute is not read as such, and metadata nested as deeply as a
text may be is not read in an event, which takes one level of its own. -/
theorem not_all_read_as_written :
    (¬ ∀ e : Event, e.IsHeld → e.toJson.depth ≤ maxNesting →
      Event.decode.text? (write e.toJson) = some e) ∧
    ¬ ∀ e : Event, e.IsHeld → e.timestamp.IsUniversal → depth (.obj e.metadata) ≤ maxNesting →
      Event.decode.text? (write e.toJson) = some e := by
  have hid : Uuid.IsWellFormed ancient.id := ⟨by decide, by decide⟩
  constructor
  · intro hall
    let leap : Event := { ancient with metadata := [], timestamp := ⟨0, 1500000000⟩ }
    have hheld : leap.IsHeld := ⟨hid, ⟨by decide, trivial⟩, ⟨by decide, by decide⟩, by decide⟩
    have hread : (Event.decode.text? (write leap.toJson)).map (·.timestamp) =
        some ⟨1, 500000000⟩ := by decide +kernel
    rw [hall leap hheld (by decide)] at hread
    exact absurd hread (by decide)
  · intro hall
    let deep : Event := { ancient with metadata := [("a", nested 126)], timestamp := ⟨0, 0⟩ }
    have hdepth : depth (.obj deep.metadata) = 127 := by
      show max (nested 126).depth 0 + 1 = 127
      rw [depth_nested]
      rfl
    have hheld : deep.IsHeld :=
      ⟨hid, ⟨by simp [deep], isExact_nested 126, trivial⟩, ⟨by decide, by decide⟩, by decide⟩
    have hread : Event.decode.text? (write deep.toJson) = none := by
      rw [Decode.text?_write (Event.isExact_toJson hheld)]
      refine (Event.decode_tree hheld).trans (if_neg ?_)
      rw [Event.depth_toJson, hdepth]
      decide
    rw [hall deep hheld nofun (Nat.le_of_eq hdepth)] at hread
    cases hread

end NotificationQueue
