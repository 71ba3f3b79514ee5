import NotificationQueue.Publish
import Mathlib.Data.List.TakeWhile

/-!
What publishers are refused, and what becomes of their requests. A request is refused just if a
field that names something is blank, and the refusal names the first such field; the draft of any
other request says what it asks for.
-/
namespace NotificationQueue
set_option autoImplicit false

/-! ## Blank texts -/

theorem Text.dropBlanks_eq_nil {cs : List Char} : dropBlanks cs = [] ↔ cs.all isBlank = true := by
  rw [dropBlanks, List.dropWhile_eq_nil_iff, List.all_eq_true]

theorem Text.trimmed_eq_nil {cs : List Char} : trimmed cs = [] ↔ cs.all isBlank = true := by
  rw [trimmed, List.reverse_eq_nil_iff, dropBlanks_eq_nil, List.all_reverse]
  constructor
  · intro h
    have hfront : (cs.takeWhile isBlank).all isBlank = true := List.all_takeWhile
    rw [← List.takeWhile_append_dropWhile (p := isBlank) (l := cs), List.all_append, hfront]
    exact h
  · intro h
    rw [dropBlanks_eq_nil.2 h]
    rfl

theorem Text.trim_eq_empty {s : String} : trim s = "" ↔ isBlankText s = true := by
  rw [trim, isBlankText, ← trimmed_eq_nil, ← String.toList_inj, String.toList_ofList]
  rfl

section

variable {field value : String}

theorem requireText_of_blank (h : Text.trim value = "") :
    requireText field value = .error (.invalidInput (field ++ " is required")) := by
  rw [requireText, if_pos (Text.trim_eq_empty.1 h)]

theorem requireText_of_not_blank (h : Text.trim value ≠ "") : requireText field value = .ok () := by
  rw [requireText, if_neg (mt Text.trim_eq_empty.2 h)]

end

namespace PublishRequest

/-! ## What a request asks for -/

/-- The fields that may not be blank, in the order in which they are looked at. -/
def required : PublishRequest → List (String × String)
  | .event r => [("entityId", r.entityId), ("entityType", r.entityType)]
  | .orderStatusChange orderId userId _ => [("orderId", orderId), ("userId", userId)]
  | .newOrder orderId _ _ => [("orderId", orderId)]
  | .orderUpdate orderId _ _ => [("orderId", orderId)]

def blank? (r : PublishRequest) : Option String :=
  (r.required.find? fun field => Text.trim field.2 = "").map Prod.fst

def recipient : PublishRequest → Subject
  | .event r => .forRecipient r.userId
  | .orderStatusChange _ userId _ => .user userId
  | .newOrder .. | .orderUpdate .. => .admin

/-- An event says what is asked for at a reading of the wall clock. An order update takes over all
details but those that go by the names of the order and of the kind of update. -/
def Describes (wall : Score) : PublishRequest → Event → Prop
  | .event r, e =>
    e.type = r.type ∧ e.action = r.action ∧ e.entityId = r.entityId ∧
      e.entityType = r.entityType ∧ e.metadata = r.metadata
  | .orderStatusChange orderId _ newStatus, e =>
    e.type = .customerOrderStatus ∧ e.action = .refresh ∧ e.entityId = orderId ∧
      e.entityType = orderEntity ∧
      e.metadata = [("status", .str newStatus), ("orderId", .str orderId)]
  | .newOrder orderId customerName totalAmount, e =>
    e.type = .adminNewOrder ∧ e.action = .fetchNew ∧ e.entityId = orderId ∧
      e.entityType = orderEntity ∧
      e.metadata = [("orderId", .str orderId), ("customerName", .str customerName),
        ("totalAmount", .str totalAmount),
        ("timestamp", .str (Timestamp.ofMicros wall).writeSeconds)]
  | .orderUpdate orderId updateType details, e =>
    e.type = .adminOrderUpdate ∧ e.action = .updatePartial ∧ e.entityId = orderId ∧
      e.entityType = orderEntity ∧
      Json.lookup "orderId" e.metadata = some (.str orderId) ∧
      Json.lookup "updateType" e.metadata = some (.str updateType) ∧
      ∀ name, name ≠ "orderId" → name ≠ "updateType" →
        Json.lookup name e.metadata = Json.lookup name (details.getD [])

/-- **A request is refused just where a field is blank that may not be**, and the first one is
named. Otherwise its draft goes to its recipient and says what is asked for. -/
theorem draft_cases (r : PublishRequest) (wall : Score) :
    (∃ field, r.blank? = some field ∧
      r.draft wall = .error (.invalidInput (field ++ " is required"))) ∨
    (r.blank? = none ∧ ∃ d, r.draft wall = .ok d ∧ d.subject = r.recipient ∧
      ∀ id score ttl, r.Describes wall (d.event id score ttl)) := by
  cases r with
  | event r =>
    by_cases hid : Text.trim r.entityId = ""
    · refine .inl ⟨"entityId", by simp [blank?, required, hid], ?_⟩
      rw [draft, requireText_of_blank hid]
      rfl
    by_cases htype : Text.trim r.entityType = ""
    · refine .inl ⟨"entityType", by simp [blank?, required, hid, htype], ?_⟩
      rw [draft, requireText_of_not_blank hid, requireText_of_blank htype]
      rfl
    refine .inr ⟨by simp [blank?, required, hid, htype], ?_⟩
    rw [draft, requireText_of_not_blank hid, requireText_of_not_blank htype]
    exact ⟨_, rfl, rfl, fun id score ttl => ⟨rfl, rfl, rfl, rfl, rfl⟩⟩
  | orderStatusChange orderId userId newStatus =>
    by_cases hid : Text.trim orderId = ""
    · refine .inl ⟨"orderId", by simp [blank?, required, hid], ?_⟩
      rw [draft, requireText_of_blank hid]
      rfl
    by_cases huser : Text.trim userId = ""
    · refine .inl ⟨"userId", by simp [blank?, required, hid, huser], ?_⟩
      rw [draft, requireText_of_not_blank hid, requireText_of_blank huser]
      rfl
    refine .inr ⟨by simp [blank?, required, hid, huser], ?_⟩
    rw [draft, requireText_of_not_blank hid, requireText_of_not_blank huser]
    exact ⟨_, rfl, rfl, fun id score ttl => ⟨rfl, rfl, rfl, rfl, rfl⟩⟩
  | newOrder orderId customerName totalAmount =>
    by_cases hid : Text.trim orderId = ""
    · refine .inl ⟨"orderId", by simp [blank?, required, hid], ?_⟩
      rw [draft, requireText_of_blank hid]
      rfl
    refine .inr ⟨by simp [blank?, required, hid], ?_⟩
    rw [draft, requireText_of_not_blank hid]
    exact ⟨_, rfl, rfl, fun id score ttl => ⟨rfl, rfl, rfl, rfl, rfl⟩⟩
  | orderUpdate orderId updateType details =>
    by_cases hid : Text.trim orderId = ""
    · refine .inl ⟨"orderId", by simp [blank?, required, hid], ?_⟩
      rw [draft, requireText_of_blank hid]
      rfl
    refine .inr ⟨by simp [blank?, required, hid], ?_⟩
    rw [draft, requireText_of_not_blank hid]
    refine ⟨_, rfl, rfl, fun id score ttl =>
      ⟨rfl, rfl, rfl, rfl, Json.lookup_setMember .., ?_, fun name horder hupdate => ?_⟩⟩
    · exact (Json.lookup_setMember_of_ne _ _ (by decide)).trans (Json.lookup_setMember ..)
    · exact (Json.lookup_setMember_of_ne _ _ horder).trans
        (Json.lookup_setMember_of_ne _ _ hupdate)

end PublishRequest

end NotificationQueue
