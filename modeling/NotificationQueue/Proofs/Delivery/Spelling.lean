import NotificationQueue.Proofs.Service.LongPolls
import NotificationQueue.Proofs.Uuid

/-!
Cursors as texts. A read looks at what a cursor says and not at how it says it: it goes on behind
the event whose id the text spells, from the start of the queue if there is none, and falls back to
the text itself where it finds nothing. An empty text is no cursor.
-/
namespace NotificationQueue
set_option autoImplicit false

/-! ## Reads next to each other -/

/-- Two batches differ in the cursors that they leave at most. -/
def Batch.SamePage (a b : Batch) : Prop :=
  a.events = b.events ∧ a.hasMore = b.hasMore

/-- Two reads have come equally far, and have found the same if they have ended. -/
inductive ReadPhase.Alike : ReadPhase → ReadPhase → Prop
  | same (phase : ReadPhase) : Alike phase phase
  | found {a b : Batch} (h : a.SamePage b) : Alike (.finished (.ok a)) (.finished (.ok b))

theorem ReadPhase.Alike.exists_samePage {p p' : ReadPhase} {a : Batch} (h : p.Alike p')
    (hp : p = .finished (.ok a)) : ∃ b, p' = .finished (.ok b) ∧ a.SamePage b := by
  subst hp
  cases h with
  | same => exact ⟨a, rfl, rfl, rfl⟩
  | found h => exact ⟨_, rfl, h⟩

namespace Query

variable {q : Query} {cursor other : Option String} {p p' : ReadPhase} {text : String} {id : Uuid}

def behind (q : Query) (cursor : Option String) : Query :=
  { q with cursor }

/-- A read behind a cursor, after some answers of the store, each at a service. -/
def readBehind (q : Query) (cursor : Option String) (answers : List (Answer × Service)) :
    ReadPhase :=
  (q.behind cursor).readOn (q.behind cursor).start answers

/-- The answer to the call that looks for the event behind a cursor, where there is such a call. -/
def seek (cursor : Option String) (s : Service) : List (Answer × Service) :=
  match (cursorOf cursor).bind Uuid.read? with
  | some _ => [(.done, s)]
  | none => []

/-- **Reads that are alike stay so at every step**, whatever their cursors say. -/
theorem alike_step (h : p.Alike p') (s : Service) (a : Answer) :
    (p.step (q.behind cursor) s.store s.clock s.wall a).Alike
      (p'.step (q.behind other) s.store s.clock s.wall a) := by
  cases h with
  | found h => exact .found h
  | same =>
    cases p with
    | locating id => cases a <;> exact .same _
    | bounding least => exact .same _
    | ranging least greatest =>
      cases a with
      | waiting => exact .same _
      | failed f => exact .same _
      | done => exact .found ⟨rfl, rfl⟩
    | finished r => exact .same _

theorem alike_readOn (h : p.Alike p') (answers : List (Answer × Service)) :
    ((q.behind cursor).readOn p answers).Alike ((q.behind other).readOn p' answers) := by
  induction answers generalizing p p' with
  | nil => exact h
  | cons x answers ih => exact ih (alike_step h x.2 x.1)

/-! ## Where reads start -/

theorem start_behind_eq : (q.behind cursor).start =
    ((cursorOf cursor).bind Uuid.read?).elim (.bounding none) .locating := by
  unfold start
  show (match (cursorOf cursor).bind Uuid.read? with | some id => _ | none => _) = _
  cases (cursorOf cursor).bind Uuid.read? <;> rfl

theorem bind_read?_of_ne_empty (h : text ≠ "") :
    (cursorOf (some text)).bind Uuid.read? = Uuid.read? text := by
  rw [cursorOf, Option.filter_some, if_pos (by simpa using h), Option.bind_some]

theorem bind_read?_of_read? (h : Uuid.read? text = some id) :
    (cursorOf (some text)).bind Uuid.read? = some id := by
  rw [bind_read?_of_ne_empty, h]
  rintro rfl
  cases h

theorem readOn_seek {s : Service}
    (h : ∀ x ∈ s.store.liveEntries q.subject.key s.wall, Uuid.read? text ≠ some x.event.id) :
    (q.behind (some text)).readOn (q.behind (some text)).start (seek (some text) s) =
      (q.behind none).start := by
  have hnone : (q.behind none).start = .bounding none := rfl
  rw [start_behind_eq, hnone, seek]
  cases hid : (cursorOf (some text)).bind Uuid.read? with
  | none => rfl
  | some id =>
    obtain ⟨t, ht, hread⟩ := Option.bind_eq_some_iff.1 hid
    obtain rfl : text = t := Option.some.inj (Option.filter_eq_some_iff.1 ht).1
    have hfind : s.store.find? q.subject.key id s.wall = none := by
      rw [Store.find?_eq, Option.map_eq_none_iff, List.find?_eq_none]
      intro x hx hsame
      exact h x hx (hread.trans (congrArg some (of_decide_eq_true hsame).symm))
    show ReadPhase.bounding ((s.store.find? q.subject.key id s.wall).map _) = _
    rw [hfind]
    rfl

/-! ## Where reads end -/

theorem exists_batch (q : Query) (cursor : Option String) (s t u : Service) :
    ∃ b, q.readBehind cursor (seek cursor s ++ [(.done, t), (.done, u)]) = .finished (.ok b) := by
  rw [readBehind, start_behind_eq, seek]
  cases (cursorOf cursor).bind Uuid.read? with
  | none => exact ⟨_, rfl⟩
  | some id => exact ⟨_, rfl⟩

theorem nextCursor_of_readBehind {answers : List (Answer × Service)} {b : Batch}
    (h : q.readBehind cursor answers = .finished (.ok b)) :
    b.nextCursor = (b.events.getLast?.map (·.id.write)).or (cursorOf cursor) := by
  rcases exists_batch_of_readOn h with hstart | ⟨events, rfl⟩
  · rw [start_behind_eq] at hstart
    cases hid : (cursorOf cursor).bind Uuid.read? <;> rw [hid] at hstart <;> cases hstart
  · rfl

/-- **Cursors are read by what they say, in whatever spelling.** Just the texts that spell an id in
one of its forms read as the id, and a read behind any of them goes as one behind the canonical
text: through any answers of the store, at any services, it comes as far and finds the same. The
cursor that it leaves is a text of its last event's id. Behind a text that says the id of no live
event a read goes as one without a cursor, once it has looked for the event in vain, and leaves the
text where it finds nothing; an empty text is no cursor and leaves none. -/
theorem read_by_meaning (q : Query) :
    (∀ text id, Uuid.read? text = some id ↔ id.IsWellFormed ∧ id.Spells text.toList) ∧
    (∀ cursor s t u, ∃ b,
      q.readBehind cursor (seek cursor s ++ [(.done, t), (.done, u)]) = .finished (.ok b)) ∧
    (∀ text id, Uuid.read? text = some id → ∀ answers,
      (q.readBehind (some text) answers).Alike (q.readBehind (some id.write) answers)) ∧
    (∀ cursor answers b, q.readBehind cursor answers = .finished (.ok b) →
      ∀ e ∈ b.events.getLast?, e.id.IsWellFormed →
        ∃ text, b.nextCursor = some text ∧ Uuid.read? text = some e.id) ∧
    (∀ text s, (∀ x ∈ s.store.liveEntries q.subject.key s.wall,
        Uuid.read? text ≠ some x.event.id) → ∀ answers,
      (q.readBehind (some text) (seek (some text) s ++ answers)).Alike
        (q.readBehind none answers) ∧
      ∀ b, q.readBehind (some text) (seek (some text) s ++ answers) = .finished (.ok b) →
        b.events = [] → (text ≠ "" → b.nextCursor = some text) ∧
          (text = "" → b.nextCursor = none)) := by
  refine ⟨fun text id => Uuid.read?_eq_some_iff, q.exists_batch, fun text id h answers => ?_,
    fun cursor answers b h e he hid => ?_, fun text s h answers => ⟨?_, fun b hb hnone => ?_⟩⟩
  · have hcanonical : Uuid.read? id.write = some id :=
      Uuid.read?_write (Uuid.read?_eq_some_iff.1 h).1
    have hstart : (q.behind (some text)).start = (q.behind (some id.write)).start := by
      rw [start_behind_eq, start_behind_eq, bind_read?_of_read? h,
        bind_read?_of_read? hcanonical]
    exact alike_readOn (hstart ▸ .same _) answers
  · refine ⟨e.id.write, ?_, Uuid.read?_write hid⟩
    rw [nextCursor_of_readBehind h, Option.mem_def.1 he]
    rfl
  · have hfirst := readOn_seek (q := q) h
    unfold readBehind readOn at *
    rw [List.foldl_append, hfirst]
    exact alike_readOn (.same _) answers
  · have hcursor := nextCursor_of_readBehind hb
    rw [hnone, List.getLast?_nil, Option.map_none, Option.none_or] at hcursor
    refine ⟨fun htext => ?_, fun htext => ?_⟩
    · rw [hcursor, cursorOf, Option.filter_some, if_pos (by simpa using htext)]
    · rw [hcursor, htext]
      rfl

def spelledService : Service :=
  let event (digit : Nat) : Event :=
    { (default : Event) with
      id := ⟨List.replicate Uuid.digitCount digit⟩, timestamp := .ofMicros digit, ttl := 300 }
  { Service.sample {} 20 with
    store := (({} : Store).append Subject.admin.key 10 (event 10) 10).append Subject.admin.key 11
      (event 11) 11 }

def spelledRead (cursor answered : Option String) : ReadPhase :=
  ({ subject := .admin, limit := 1 } : Query).readBehind cursor
    (seek answered spelledService ++ [(.done, spelledService), (.done, spelledService)])

/-- Both spellings of the first event's id lead to the second event, and an id of none to the
first. -/
theorem read_by_meaning_of_urn :
    let urn := some "URN:uuid:AAAAaaaa-AAAA-aaaa-AAAA-aaaaAAAAaaaa"
    let canonical := some (Uuid.write ⟨List.replicate Uuid.digitCount 10⟩)
    let unknown := some "{cccccccc-cccc-cccc-cccc-cccccccccccc}"
    (∃ a b : Batch, spelledRead urn urn = .finished (.ok a) ∧
      spelledRead canonical urn = .finished (.ok b) ∧ a.SamePage b ∧
      a.events.map (·.id) = [⟨List.replicate Uuid.digitCount 11⟩]) ∧
    ∃ a b : Batch, spelledRead unknown unknown = .finished (.ok a) ∧
      spelledRead none none = .finished (.ok b) ∧ a.SamePage b ∧
      a.events.map (·.id) = [⟨List.replicate Uuid.digitCount 10⟩] := by
  intro urn canonical unknown
  have hids : ∀ cursor a, spelledRead cursor cursor = .finished (.ok a) →
      (spelledRead cursor cursor).result?.bind Except.toOption = some a := by
    intro cursor a ha
    rw [ha]
    rfl
  obtain ⟨-, hends, hspelt, -, hvain⟩ := read_by_meaning { subject := .admin, limit := 1 }
  constructor
  · have hread : Uuid.read? "URN:uuid:AAAAaaaa-AAAA-aaaa-AAAA-aaaaAAAAaaaa" =
        some ⟨List.replicate Uuid.digitCount 10⟩ := by decide +kernel
    have hfound : ((spelledRead urn urn).result?.bind Except.toOption).map
        (·.events.map (·.id)) = some [⟨List.replicate Uuid.digitCount 11⟩] := by decide +kernel
    obtain ⟨a, ha⟩ := hends urn spelledService spelledService spelledService
    obtain ⟨b, hb, hsame⟩ := (hspelt _ _ hread _).exists_samePage ha
    rw [hids urn a ha, Option.map_some, Option.some.injEq] at hfound
    exact ⟨a, b, ha, hb, hsame, hfound⟩
  · have hstranger : ∀ x ∈ spelledService.store.liveEntries Subject.admin.key spelledService.wall,
        Uuid.read? "{cccccccc-cccc-cccc-cccc-cccccccccccc}" ≠ some x.event.id := by decide +kernel
    have hfound : ((spelledRead unknown unknown).result?.bind Except.toOption).map
        (·.events.map (·.id)) = some [⟨List.replicate Uuid.digitCount 10⟩] := by decide +kernel
    obtain ⟨a, ha⟩ := hends unknown spelledService spelledService spelledService
    obtain ⟨b, hb, hsame⟩ := (hvain _ _ hstranger _).1.exists_samePage ha
    rw [hids unknown a ha, Option.map_some, Option.some.injEq] at hfound
    exact ⟨a, b, ha, hb, hsame, hfound⟩

/-- An empty text does not come back from a read that finds nothing. -/
theorem empty_cursor_not_kept :
    ¬ ∀ (q : Query) (text : String) (s : Service) (answers : List (Answer × Service)) (b : Batch),
      (∀ x ∈ s.store.liveEntries q.subject.key s.wall, Uuid.read? text ≠ some x.event.id) →
      q.readBehind (some text) (seek (some text) s ++ answers) = .finished (.ok b) →
      b.events = [] → b.nextCursor = some text := by
  intro hall
  have hkept := hall { subject := .admin, limit := 1 } "" (Service.sample {} 0)
    [(.done, Service.sample {} 0), (.done, Service.sample {} 0)] _ nofun rfl rfl
  cases hkept

end Query

end NotificationQueue
