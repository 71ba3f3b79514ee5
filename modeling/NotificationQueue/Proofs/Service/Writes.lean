import NotificationQueue.Proofs.Publish
import NotificationQueue.Proofs.Service.Changes
import NotificationQueue.Proofs.Service.Horizon
import NotificationQueue.Proofs.Service.Turns

/-!
What becomes of a publish. Its write is a task that only its own turns take further, and only its
caller can leave; the phase in which it stands tells the calls of the store that it has made. So it
makes one append, whatever others do in between, and what its caller is told is what that append
came to.
-/
namespace NotificationQueue
set_option autoImplicit false

/-! ## Calls of tasks -/

def Answer.result? : Answer → Option (Except StoreFault Unit)
  | .waiting => none
  | .done => some (.ok ())
  | .failed f => some (.error f)

namespace Service

variable {s : Service} {i : Nat}

/-- The call that a move answers to a task, if the task waits for one that may change the store. -/
def answered? (s : Service) (i : Nat) (m : Move) : Option (Store.Call × Except StoreFault Unit) :=
  (m.turn? i).bind fun a => (s.tasks[i]?.bind (Task.change? s.settings .done)).bind fun c =>
    a.result?.map fun result => (c, result)

/-- The calls of the store that a task makes in a run, and what they come to. -/
def calls (s : Service) (i : Nat) : List Move → List (Store.Call × Except StoreFault Unit)
  | [] => []
  | m :: ms => (s.answered? i m).toList ++ (s.move m).calls i ms

/-- The turns of a task in a run for which it has not to wait. -/
def turns (i : Nat) (ms : List Move) : Nat :=
  ms.countP fun m => (m.turn? i).any (· ≠ .waiting)

theorem turns_cons (i : Nat) (m : Move) (ms : List Move) :
    turns i (m :: ms) = turns i ms + if (m.turn? i).any (· ≠ .waiting) then 1 else 0 :=
  List.countP_cons

theorem exists_answered? {ms : List Move} {x : Store.Call × Except StoreFault Unit}
    (hx : x ∈ s.calls i ms) :
    ∃ before m after, ms = before ++ m :: after ∧ (s.run before).answered? i m = some x := by
  induction ms generalizing s with
  | nil => cases hx
  | cons m ms ih =>
    rcases List.mem_append.1 hx with hx | hx
    · exact ⟨[], m, ms, rfl, Option.mem_toList.1 hx⟩
    · obtain ⟨before, m', after, rfl, hm⟩ := ih hx
      exact ⟨m :: before, m', after, rfl, hm⟩

theorem change?_eq_some_iff {m : Move} {c : Store.Call} :
    s.change? m = some c ↔ ∃ i, s.answered? i m = some (c, .ok ()) := by
  constructor
  · intro h
    cases m with
    | advance i a =>
      obtain ⟨u, hu, hc⟩ := Option.bind_eq_some_iff.1 h
      cases a with
      | done =>
        refine ⟨i, ?_⟩
        simp only [answered?, Move.turn?_eq_some.2 rfl, Option.bind_some, hu, hc]
        rfl
      | waiting | failed => cases u <;> cases hc
    | _ => cases h
  · rintro ⟨i, h⟩
    obtain ⟨a, hturn, hcall⟩ := Option.bind_eq_some_iff.1 h
    obtain ⟨c', hc, hresult⟩ := Option.bind_eq_some_iff.1 hcall
    obtain rfl := Move.turn?_eq_some.1 hturn
    cases a with
    | done =>
      cases hresult
      exact hc
    | waiting | failed => cases hresult

end Service

/-! ## Writes -/

def WritePhase.next (a : Answer) : WritePhase → WritePhase
  | .appending =>
    match a with
    | .waiting => .appending
    | .done => .releasing (.ok ())
    | .failed f => .releasing (.error f)
  | .releasing result => .released result
  | .trimming =>
    match a with
    | .waiting => .trimming
    | _ => .ending (.ok ())
  | .ending result | .finished result => .finished result

/-- How many turns a write still takes at most, if it has not to wait for any. -/
def WritePhase.left : WritePhase → Nat
  | .appending => 4
  | .releasing _ => 3
  | .trimming => 2
  | .ending _ => 1
  | .finished _ => 0

theorem WritePhase.left_next_le (p : WritePhase) (a : Answer) :
    (p.next a).left ≤ p.left - if a ≠ .waiting then 1 else 0 := by
  cases p with
  | releasing r => cases r <;> cases a <;> simp [next, released, left]
  | appending | trimming | ending | finished => cases a <;> simp [next, left]

theorem WritePhase.left_eq_zero {p : WritePhase} (h : p.left = 0) : ∃ r, p = .finished r := by
  cases p with
  | finished r => exact ⟨r, rfl⟩
  | _ => cases h

namespace Write

variable {w : Write} {keep : Nat} {l : List (Store.Call × Except StoreFault Unit)}

def append (w : Write) : Store.Call := .append w.key w.score w.event

def trim (w : Write) (keep : Nat) : Store.Call := .trim w.key keep

def Made (w : Write) (keep : Nat) (l : List (Store.Call × Except StoreFault Unit)) :
    WritePhase → Prop
  | .appending => l = []
  | .releasing result => l = [(w.append, result)]
  | .trimming => l = [(w.append, .ok ())]
  | .ending (.error f) | .finished (.error f) => l = [(w.append, .error f)]
  | .ending (.ok ()) | .finished (.ok ()) =>
    ∃ result, l = [(w.append, .ok ()), (w.trim keep, result)]

def call? (w : Write) (keep : Nat) : WritePhase → Option Store.Call
  | .appending => some w.append
  | .trimming => some (w.trim keep)
  | _ => none

theorem Made.next {p : WritePhase} (h : w.Made keep l p) (a : Answer) :
    w.Made keep (l ++ ((w.call? keep p).bind fun c => a.result?.map fun r => (c, r)).toList)
      (p.next a) := by
  cases p with
  | appending =>
    obtain rfl : l = [] := h
    cases a <;> rfl
  | releasing result =>
    obtain rfl : l = [(w.append, result)] := h
    cases result <;> rfl
  | trimming =>
    obtain rfl : l = [(w.append, .ok ())] := h
    cases a with
    | waiting => rfl
    | done => exact ⟨_, rfl⟩
    | failed f => exact ⟨_, rfl⟩
  | ending result | finished result =>
    show w.Made keep (l ++ []) (.finished result)
    rw [List.append_nil]
    cases result <;> exact h

/-- The calls of a write whose append has come to a result: the append and, where it succeeded, a
trim at most. -/
def Asked (w : Write) (keep : Nat) (result : Except StoreFault Unit)
    (l : List (Store.Call × Except StoreFault Unit)) : Prop :=
  l = [(w.append, result)] ∨
    (result = .ok () ∧ ∃ trimmed, l = [(w.append, .ok ()), (w.trim keep, trimmed)])

theorem Made.asked_of_finished {result : Except StoreFault Unit}
    (h : w.Made keep l (.finished result)) : w.Asked keep result l := by
  cases result with
  | ok u => exact .inr ⟨rfl, h⟩
  | error f => exact .inl h

theorem Made.asked {p : WritePhase} (h : w.Made keep l p) :
    (p = .appending ∧ l = []) ∨ ∃ result, w.Asked keep result l := by
  cases p with
  | appending => exact .inl ⟨rfl, h⟩
  | releasing result => exact .inr ⟨result, .inl h⟩
  | trimming => exact .inr ⟨.ok (), .inl h⟩
  | ending result =>
    refine .inr ⟨result, ?_⟩
    cases result with
    | ok u => exact .inr ⟨rfl, h⟩
    | error f => exact .inl h
  | finished result => exact .inr ⟨result, h.asked_of_finished⟩

end Write

namespace Service

variable {s : Service} {i : Nat} {w : Write}

/-! ## Runs of a write -/

theorem advance_write (hw : s.tasks[i]? = some (.write w)) (a : Answer) :
    (s.advance i a).tasks[i]? = some (.write { w with phase := w.phase.next a }) := by
  have hto : ∀ {t : Service} (v : Write), t.tasks = s.tasks →
      (t.setTask i (.write v)).tasks[i]? = some (.write v) := fun v ht =>
    setTask_of_getElem? (ht ▸ hw) _
  obtain ⟨key, event, score, background, phase⟩ := w
  simp only [advance, hw]
  cases phase with
  | appending =>
    cases a with
    | waiting => exact hw
    | failed f => exact hto _ rfl
    | done => exact hto _ rfl
  | releasing result => cases result <;> exact hto _ rfl
  | trimming =>
    cases a with
    | waiting => exact hw
    | failed f => exact hto _ rfl
    | done => exact hto _ rfl
  | ending result => cases background <;> exact hto _ rfl
  | finished result => exact hw

/-- **A move is a turn of a write, or leaves it alone**, unless its caller leaves it. -/
theorem move_write (hl : s.Linked) (hw : s.tasks[i]? = some (.write w)) {m : Move}
    (hdrop : w.background = true ∨ m ≠ .drop i) :
    (s.move m).tasks[i]? =
      some (.write { w with phase := (m.turn? i).elim w.phase w.phase.next }) := by
  cases hturn : m.turn? i with
  | some a =>
    obtain rfl := Move.turn?_eq_some.1 hturn
    exact advance_write hw a
  | none =>
    show (s.move m).tasks[i]? = some (.write w)
    by_cases hd : m = .drop i
    · subst hd
      have hb : w.background = true := hdrop.resolve_right fun h => h rfl
      simp only [move, drop, hw, hb, if_true]
    by_cases hc : m = .cancel i
    · subst hc
      simp only [move, cancel, hw]
    exact move_of_ne hl hw id hturn hc hd

theorem answered?_write (hw : s.tasks[i]? = some (.write w)) (m : Move) :
    s.answered? i m = (m.turn? i).bind fun a =>
      (w.call? s.settings.pageSize w.phase).bind fun c => a.result?.map fun r => (c, r) := by
  have hcall : Task.change? s.settings .done (.write w) =
      w.call? s.settings.pageSize w.phase := by
    rw [Task.change?]
    cases w.phase <;> rfl
  rw [answered?, hw, Option.bind_some, hcall]

theorem made_move {l : List (Store.Call × Except StoreFault Unit)}
    (hw : s.tasks[i]? = some (.write w)) (hmade : w.Made s.settings.pageSize l w.phase) (m : Move) :
    w.Made s.settings.pageSize (l ++ (s.answered? i m).toList)
      ((m.turn? i).elim w.phase w.phase.next) := by
  rw [answered?_write hw]
  cases m.turn? i with
  | none =>
    show w.Made _ (l ++ []) w.phase
    rw [List.append_nil]
    exact hmade
  | some a => exact hmade.next a

theorem left_turn_le (p : WritePhase) (m : Move) :
    ((m.turn? i).elim p p.next).left ≤
      p.left - if (m.turn? i).any (· ≠ .waiting) then 1 else 0 := by
  cases m.turn? i with
  | none => exact Nat.le_refl _
  | some a => simpa using p.left_next_le a

/-- **However a run goes, a write stands in the phase that tells its calls**, and each turn that it
gets brings it nearer to its end. -/
theorem made_run {l : List (Store.Call × Except StoreFault Unit)} (hl : s.Linked)
    (hw : s.tasks[i]? = some (.write w)) (hmade : w.Made s.settings.pageSize l w.phase)
    {ms : List Move} (hdrop : w.background = true ∨ .drop i ∉ ms) :
    ∃ p, (s.run ms).tasks[i]? = some (.write { w with phase := p }) ∧
      w.Made s.settings.pageSize (l ++ s.calls i ms) p ∧ p.left ≤ w.phase.left - turns i ms := by
  -- The phase stands for the calls made so far, so the write and its calls change along the run.
  induction ms generalizing s w l with
  | nil =>
    refine ⟨w.phase, hw, ?_, Nat.le_refl _⟩
    rw [calls, List.append_nil]
    exact hmade
  | cons m ms ih =>
    have hfirst := move_write hl hw (hdrop.imp_right fun h heq => h (heq ▸ List.mem_cons_self))
    have hmade' := made_move hw hmade m
    rw [← (s.changed_move m).settings] at hmade'
    obtain ⟨p, hp, hcalls, hleft⟩ := ih (hl.move m) hfirst hmade'
      (hdrop.imp_right fun h hmem => h (List.mem_cons_of_mem m hmem))
    refine ⟨p, hp, ?_, ?_⟩
    · rw [(s.changed_move m).settings] at hcalls
      rw [calls, ← List.append_assoc]
      exact hcalls
    · have hturn := left_turn_le (i := i) w.phase m
      have hrest : p.left ≤ ((m.turn? i).elim w.phase w.phase.next).left - turns i ms := hleft
      rw [turns_cons]
      omega

theorem made_of_appending (hl : s.Linked) (hw : s.tasks[i]? = some (.write w))
    (hphase : w.phase = .appending) {ms : List Move} (hdrop : w.background = true ∨ .drop i ∉ ms) :
    ∃ p, (s.run ms).tasks[i]? = some (.write { w with phase := p }) ∧
      w.Made s.settings.pageSize (s.calls i ms) p ∧ p.left ≤ 4 - turns i ms := by
  have hmade : w.Made s.settings.pageSize [] w.phase := by
    rw [hphase]
    rfl
  have hrun := made_run hl hw hmade hdrop
  rw [List.nil_append, hphase] at hrun
  exact hrun

end Service

/-! ## Publishes -/

theorem Slots.isSome_acquire? (s : Slots) :
    s.acquire?.isSome = true ↔ s.closed = false ∧ 0 < s.available := by
  unfold acquire?
  split
  · next h =>
    rcases h with h | h <;> simp [h]
  · next h =>
    rw [not_or, Bool.not_eq_true] at h
    have hfree : 0 < s.available := Nat.pos_of_ne_zero h.2
    simp [h.1, hfree]

def Delivery.ofAppend : Except StoreFault Unit → Except Failure Delivery
  | .ok () => .ok .written
  | .error f => .error (.store f)

namespace Core

variable {c c' : Core} {l : Option Notice} {d : Int}

structure Numbered (c : Core) : Prop where
  write : ∀ i w, c.writes i = some w → ∃ n < c.issued, w.event.id = c.ids n
  entry : ∀ k, ∀ e ∈ c.store.entries k, ∃ n < c.issued, e.event.id = c.ids n

theorem Numbered.step (h : c.Numbered) (hs : c.store.Sound) (hstep : c.Step l d c') :
    c'.Numbered := by
  rcases hstep.cases hs with ⟨-, hf⟩ | ⟨id, d, -, -, rfl⟩ | ⟨id, w, hw, -, -, rfl⟩
  · refine ⟨fun i v hv => ?_, fun k e he => ?_⟩
    · obtain ⟨w, hw, -, -, hevent, -⟩ := hf.write i v hv
      rw [hf.issued, hf.ids, hevent]
      exact h.write i w hw
    · rw [hf.issued, hf.ids]
      exact h.entry k e ((hf.store.suffix k).subset he)
  · have hlater : ∀ {x : Uuid}, (∃ n < c.issued, x = c.ids n) → ∃ n < c.issued + 1, x = c.ids n :=
      fun ⟨n, hn, hx⟩ => ⟨n, Nat.lt_succ_of_lt hn, hx⟩
    refine ⟨fun i v hv => ?_, fun k e he => hlater (h.entry k e he)⟩
    rcases writes_setWrite hv with ⟨-, hnew⟩ | ⟨-, hold⟩
    · cases hnew
      exact ⟨c.issued, Nat.lt_succ_self _, rfl⟩
    · exact hlater (h.write i v hold)
  · refine ⟨fun i v hv => ?_, fun k e he => ?_⟩
    · rcases writes_setWrite hv with ⟨-, hlanded⟩ | ⟨-, hold⟩
      · cases hlanded
        exact h.write id w hw
      · exact h.write i v hold
    · rcases entries_land he with ⟨-, rfl⟩ | hold
      · exact h.write id w hw
      · exact h.entry k e hold

/-- Every write but the one of a certain task has an id that was given under another number. -/
structure Apart (c : Core) (i number : Nat) : Prop where
  issued : number < c.issued
  write : ∀ j v, j ≠ i → c.writes j = some v → ∃ n < c.issued, n ≠ number ∧ v.event.id = c.ids n

theorem Step.issued_le (hstep : c.Step l d c') : c.issued ≤ c'.issued := by
  cases hstep with
  | stamp => exact Nat.le_succ _
  | _ => exact Nat.le_refl _

theorem Apart.step {i number : Nat} (h : c.Apart i number) (hs : c.store.Sound)
    (hstep : c.Step l d c') : c'.Apart i number := by
  refine ⟨Nat.lt_of_lt_of_le h.issued hstep.issued_le, fun j v hj hv => ?_⟩
  rcases hstep.cases hs with ⟨-, hf⟩ | ⟨id, d, -, -, rfl⟩ | ⟨id, w, hw, -, -, rfl⟩
  · obtain ⟨w, hw, -, -, hevent, -⟩ := hf.write j v hv
    rw [hf.issued, hf.ids, hevent]
    exact h.write j w hj hw
  · rcases writes_setWrite hv with ⟨-, hnew⟩ | ⟨-, hold⟩
    · cases hnew
      exact ⟨c.issued, Nat.lt_succ_self _, Nat.ne_of_gt h.issued, rfl⟩
    · obtain ⟨n, hn, hrest⟩ := h.write j v hj hold
      exact ⟨n, Nat.lt_succ_of_lt hn, hrest⟩
  · rcases writes_setWrite hv with ⟨rfl, hlanded⟩ | ⟨-, hold⟩
    · cases hlanded
      exact h.write j w hj hw
    · exact h.write j v hj hold

theorem Numbered.apart_stamp (h : c.Numbered) (id : Nat) (d : Draft) :
    (c.stamp id d).Apart id c.issued := by
  refine ⟨Nat.lt_succ_self _, fun j v hj hv => ?_⟩
  rcases writes_setWrite hv with ⟨hid, -⟩ | ⟨-, hold⟩
  · exact absurd hid hj
  · obtain ⟨n, hn, hid⟩ := h.write j v hold
    exact ⟨n, Nat.lt_succ_of_lt hn, Nat.ne_of_lt hn, hid⟩

end Core

namespace Service

variable {s t : Service} {i : Nat} {w : Write} {p : Publication}

theorem issued_le_run (hl : s.Linked) (ms : List Move) : s.issued ≤ (s.run ms).issued :=
  invariant_run (P := fun c => s.issued ≤ c.issued)
    (fun h hstep => Nat.le_trans h hstep.issued_le) (Nat.le_refl _) hl ms

theorem write_of_answered? {m : Move} {x : Store.Call × Except StoreFault Unit}
    (hx : s.answered? i m = some x) {key : String} {score : Score} {event : Event}
    (hevent : x.1 = .append key score event) :
    ∃ v : Write, s.tasks[i]? = some (.write v) ∧ v.event = event := by
  obtain ⟨a, -, hx⟩ := Option.bind_eq_some_iff.1 hx
  obtain ⟨c, hc, hx⟩ := Option.bind_eq_some_iff.1 hx
  obtain ⟨result, -, rfl⟩ := Option.map_eq_some_iff.1 hx
  obtain rfl : c = .append key score event := hevent
  have hchange : s.change? (.advance i .done) = some (.append key score event) := hc
  rcases change?_cases hchange with ⟨j, v, hj, hv, -, happend⟩ | ⟨k, h⟩ | ⟨k, h⟩ | h
  · cases hj
    cases happend
    exact ⟨v, hv, rfl⟩
  · cases h
  · cases h
  · cases h

theorem Reachable.numbered (h : s.Reachable) : s.core.Numbered := by
  refine h.invariant (fun hstart => ?_) fun hs hc => hc.step hs.store
  obtain ⟨slots, rfl⟩ := start?_eq_some hstart
  refine ⟨fun i w hw => ?_, fun k e he => absurd he List.not_mem_nil⟩
  simp [core] at hw

theorem id_of_append {number j : Nat} {ms : List Move} (hl : s.Linked) (hs : s.core.Stamped)
    (hapart : s.core.Apart i number) (hj : j ≠ i) {x : Store.Call × Except StoreFault Unit}
    (hx : x ∈ s.calls j ms) {key : String} {score : Score} {event : Event}
    (hevent : x.1 = .append key score event) :
    ∃ n < (s.run ms).issued, n ≠ number ∧ event.id = s.ids n := by
  -- The write that appends may itself be started on the way, so what is kept is about all writes.
  induction ms generalizing s with
  | nil => cases hx
  | cons m ms ih =>
    have hstep := step_move hl m
    rcases List.mem_append.1 hx with hx | hx
    · obtain ⟨v, hv, rfl⟩ := write_of_answered? (Option.mem_toList.1 hx) hevent
      obtain ⟨n, hn, hne, hid⟩ := hapart.write j v hj (core_writes hv)
      exact ⟨n, Nat.lt_of_lt_of_le hn (issued_le_run hl (m :: ms)), hne, hid⟩
    · obtain ⟨n, hn, hne, hid⟩ :=
        ih (hl.move m) (hs.step hstep) (hapart.step hs.store hstep) hx
      have hids : (s.move m).ids = s.ids := hstep.ids
      exact ⟨n, hn, hne, hids ▸ hid⟩

/-- A write that has just been started for a request, and what its caller has been told: it is about
to append, under the key of the recipient, a new event that says what was asked for. -/
structure Published (s : Service) (r : PublishRequest) (p : Publication) (w : Write) : Prop where
  task : (s.move (.publish r)).tasks[p.task]? = some (.write w)
  phase : w.phase = .appending
  key : w.key = r.recipient.key
  event : r.Describes s.wall w.event
  score : w.event.score = w.score
  id : w.event.id = s.ids s.issued
  issued : (s.move (.publish r)).issued = s.issued + 1
  fresh : (∀ n < s.issued, s.ids n ≠ s.ids s.issued) →
    (∀ (i : Nat) (v : Write), s.tasks[i]? = some (.write v) → v.event.id ≠ w.event.id) ∧
      ∀ k, ∀ e ∈ s.store.entries k, e.event.id ≠ w.event.id
  dispatched : p.delivery = .dispatched ↔ s.slots.closed = false ∧ 0 < s.slots.available
  background : w.background = true ↔ p.delivery = .dispatched

/-- What a run makes of a publish whose write has been started. -/
structure Carried (t : Service) (p : Publication) (w : Write) (ms : List Move) : Prop where
  /-- One append is made at most, and a trim only behind one that succeeded. -/
  once : t.calls p.task ms = [] ∨ ∃ result, w.Asked t.settings.pageSize result (t.calls p.task ms)
  dispatched : p.delivery = .dispatched → (t.run ms).publishResult? p = some (.ok .dispatched)
  written : p.delivery = .written → ∀ told, (t.run ms).publishResult? p = some told →
    ∃ result, w.Asked t.settings.pageSize result (t.calls p.task ms) ∧
      told = Delivery.ofAppend result
  ended : 4 ≤ turns p.task ms →
    (∃ result, w.Asked t.settings.pageSize result (t.calls p.task ms)) ∧
      ((t.run ms).publishResult? p).isSome = true
  alone : (∀ n < (t.run ms).issued, n + 1 ≠ t.issued → t.ids n ≠ w.event.id) →
    ∀ j ≠ p.task, ∀ x ∈ t.calls j ms, ∀ key score event, x.1 = .append key score event →
      event.id ≠ w.event.id

theorem submit_snd (s : Service) (d : Draft) :
    (s.submit d).2 =
      ⟨s.tasks.size, if s.slots.acquire?.isSome then .dispatched else .written⟩ := by
  unfold submit
  dsimp only
  split
  · next h => rw [h]; rfl
  · next h => rw [h]; rfl

theorem submit_task (s : Service) (d : Draft) :
    (s.submit d).1.tasks[s.tasks.size]? = some (.write (s.core.writeOf d)) := by
  have hspawn : ∀ {t : Service} (v : Task), t.tasks.size = s.tasks.size →
      (t.spawn v).tasks[s.tasks.size]? = some v := fun v ht => spawn_of_size ht.symm v
  unfold submit
  dsimp only
  split
  · next h =>
    refine (hspawn _ rfl).trans ?_
    simp only [Core.writeOf, core, h]
    rfl
  · next h =>
    refine (hspawn _ rfl).trans ?_
    simp only [Core.writeOf, core, h]
    rfl

theorem issued_submit (s : Service) (d : Draft) : (s.submit d).1.issued = s.issued + 1 := by
  unfold submit
  dsimp only
  split <;> rfl

theorem published_of_draft (hs : s.Reachable) {r : PublishRequest} {d : Draft}
    (hd : r.draft s.wall = .ok d) (hsubject : d.subject = r.recipient)
    (hevent : ∀ id score ttl, r.Describes s.wall (d.event id score ttl)) :
    s.Published r (s.submit d).2 (s.core.writeOf d) := by
  have hmove : s.move (.publish r) = (s.submit d).1 := by rw [move_publish, hd]
  have hback : (s.core.writeOf d).background = s.slots.acquire?.isSome := rfl
  have hdelivery : (s.submit d).2.delivery = .dispatched ↔ s.slots.acquire?.isSome = true := by
    rw [submit_snd]
    cases s.slots.acquire?.isSome <;> simp
  constructor
  case task => rw [hmove, submit_snd, submit_task]
  case phase => rfl
  case key => rw [← hsubject]; rfl
  case event => exact hevent _ _ _
  case score => exact Core.score_notice hs.stamped.clock.last_nonneg d
  case id => rfl
  case issued => rw [hmove, issued_submit]
  case fresh =>
    intro hids
    refine ⟨fun i v hv heq => ?_, fun k e he heq => ?_⟩
    · obtain ⟨n, hn, hid⟩ := hs.numbered.write i v (core_writes hv)
      exact hids n hn (hid.symm.trans heq)
    · obtain ⟨n, hn, hid⟩ := hs.numbered.entry k e he
      exact hids n hn (hid.symm.trans heq)
  case dispatched => rw [hdelivery, Slots.isSome_acquire?]
  case background => rw [hback, hdelivery]

theorem publishResult?_of_write (hp : p.delivery = .written)
    (hw : t.tasks[p.task]? = some (.write w)) :
    t.publishResult? p =
      match w.phase with
      | .finished result => some (Delivery.ofAppend result)
      | _ => none := by
  unfold publishResult?
  rw [hp, hw]
  dsimp only
  cases w.phase with
  | finished result => cases result <;> rfl
  | _ => rfl

theorem carried_of_write (hl : t.Linked) (hs : t.core.Stamped)
    (hapart : t.core.Apart p.task (t.issued - 1)) (hw : t.tasks[p.task]? = some (.write w))
    (hphase : w.phase = .appending) (hback : w.background = true ↔ p.delivery = .dispatched)
    {ms : List Move} (hdrop : p.delivery = .written → .drop p.task ∉ ms) :
    t.Carried p w ms := by
  have hstay : w.background = true ∨ .drop p.task ∉ ms := by
    cases hd : p.delivery with
    | dispatched => exact .inl (hback.2 hd)
    | written => exact .inr (hdrop hd)
  obtain ⟨phase, hphase', hcalls, hleft⟩ := made_of_appending hl hw hphase hstay
  constructor
  case once => exact hcalls.asked.imp_left And.right
  case dispatched =>
    intro hd
    unfold publishResult?
    rw [hd]
  case written =>
    intro hd told htold
    rw [publishResult?_of_write hd hphase'] at htold
    cases phase with
    | finished result =>
      cases htold
      exact ⟨result, hcalls.asked_of_finished, rfl⟩
    | _ => cases htold
  case ended =>
    intro hturns
    have hzero : phase.left = 0 := by omega
    obtain ⟨result, rfl⟩ := WritePhase.left_eq_zero hzero
    refine ⟨⟨result, hcalls.asked_of_finished⟩, ?_⟩
    cases hd : p.delivery with
    | dispatched =>
      unfold publishResult?
      rw [hd]
      rfl
    | written =>
      rw [publishResult?_of_write hd hphase']
      rfl
  case alone =>
    intro hids j hj x hx key score event hevent heq
    obtain ⟨n, hn, hne, hid⟩ := id_of_append hl hs hapart hj hx hevent
    exact hids n hn (by omega) (hid.symm.trans heq)

theorem carried_of_publish (hs : s.Reachable) {r : PublishRequest}
    (hp : s.publish r = .ok (t, p)) :
    t = s.move (.publish r) ∧ ∃ w, s.Published r p w ∧
      ∀ ms : List Move, (p.delivery = .written → .drop p.task ∉ ms) → t.Carried p w ms := by
  rcases r.draft_cases s.wall with ⟨field, -, hd⟩ | ⟨-, d, hd, hsubject, hevent⟩
  · rw [publish, hd] at hp
    cases hp
  · have hpublished := published_of_draft hs hd hsubject hevent
    have hmove : s.move (.publish r) = (s.submit d).1 := by rw [move_publish, hd]
    rw [publish, hd] at hp
    have hpair : s.submit d = (t, p) := Except.ok.inj hp
    obtain rfl : (s.submit d).1 = t := congrArg Prod.fst hpair
    obtain rfl : (s.submit d).2 = p := congrArg Prod.snd hpair
    have hapart : (s.move (.publish r)).core.Apart (s.submit d).2.task
        ((s.move (.publish r)).issued - 1) := by
      rw [hpublished.issued, hmove, core_submit, submit_snd]
      exact hs.numbered.apart_stamp s.tasks.size d
    have hstamped : (s.move (.publish r)).core.Stamped := (hs.run [.publish r]).stamped
    refine ⟨hmove.symm, s.core.writeOf d, hpublished, fun ms hms => ?_⟩
    rw [← hmove]
    exact carried_of_write (hs.linked.move _) hstamped hapart hpublished.task hpublished.phase
      hpublished.background hms

theorem publish_eq (s : Service) (r : PublishRequest) :
    (∃ field, r.blank? = some field ∧
      s.publish r = .error (.invalidInput (field ++ " is required")) ∧ s.move (.publish r) = s) ∨
    (r.blank? = none ∧ ∃ p, s.publish r = .ok (s.move (.publish r), p)) := by
  rcases r.draft_cases s.wall with ⟨field, hblank, hd⟩ | ⟨hblank, d, hd, -⟩
  · refine .inl ⟨field, hblank, ?_, ?_⟩
    · rw [publish, hd]
      rfl
    · rw [move_publish, hd]
  · refine .inr ⟨hblank, (s.submit d).2, ?_⟩
    rw [publish, hd, move_publish, hd]
    rfl

/-- **A publish is refused just where a field is blank that may not be, and changes nothing then;
any other makes exactly one append, and its caller is told the truth.** Whatever else a service
does, the task of its write appends its event once, under the key of its recipient and at its own
score. It is dispatched just if a slot is free in an open pool; otherwise its caller, who stays, is
told what the append came to, whatever the trim behind it comes to. -/
theorem publish_appends_once {s : Service} (hs : s.Reachable) (r : PublishRequest) :
    (∀ field, r.blank? = some field →
      s.publish r = .error (.invalidInput (field ++ " is required")) ∧
        s.move (.publish r) = s) ∧
    (r.blank? = none → ∃ p w, s.publish r = .ok (s.move (.publish r), p) ∧ s.Published r p w ∧
      ∀ ms : List Move, (p.delivery = .written → .drop p.task ∉ ms) →
        (s.move (.publish r)).Carried p w ms) := by
  rcases s.publish_eq r with ⟨field, hblank, hrefused⟩ | ⟨hblank, p, hp⟩
  · refine ⟨fun name hname => ?_, fun hnone => ?_⟩
    · obtain rfl : field = name := Option.some.inj (hblank.symm.trans hname)
      exact hrefused
    · rw [hnone] at hblank
      cases hblank
  · refine ⟨fun field hfield => ?_, fun _ => ?_⟩
    · rw [hblank] at hfield
      cases hfield
    · obtain ⟨-, w, hpublished, hcarried⟩ := carried_of_publish hs hp
      exact ⟨p, w, hp, hpublished, hcarried⟩

/-- With the only slot taken an order is written on its caller's behalf, and its caller is told that
the append has failed. -/
theorem publish_appends_once_exhausted :
    let s := (sample { writeSlots := 1 } 1000).run [.publish (.newOrder "a" "x" "1")]
    let t := s.move (.publish (.newOrder "b" "x" "1"))
    let ms := [.advance 1 (.failed (.unavailable "down")), .advance 1 .done, .advance 0 .done,
      .advance 1 .done, .advance 1 .done]
    ∃ p w, s.publish (.newOrder "b" "x" "1") = .ok (t, p) ∧ p = ⟨1, .written⟩ ∧
      s.Published (.newOrder "b" "x" "1") p w ∧ t.Carried p w ms ∧ 4 ≤ turns 1 ms ∧
      (t.run ms).publishResult? p = some (.error (.store (.unavailable "down"))) := by
  intro s t ms
  have hs : s.Reachable := ⟨{ writeSlots := 1 }, sampleIds, 1000, _, _,
    start?_sample (by decide) 1000, rfl⟩
  obtain ⟨p, w, hp, hpublished, hcarried⟩ :=
    (publish_appends_once hs (.newOrder "b" "x" "1")).2 (by decide +kernel)
  have htask : p = ⟨1, .written⟩ := by
    have hsnd : (s.publish (.newOrder "b" "x" "1")).toOption.map Prod.snd = some p := by
      rw [hp]
      rfl
    have hsome : (s.publish (.newOrder "b" "x" "1")).toOption.map Prod.snd =
        some ⟨1, .written⟩ := by decide +kernel
    exact Option.some.inj (hsnd.symm.trans hsome)
  subst htask
  have hrun : t.Carried ⟨1, .written⟩ w ms := hcarried ms fun _ => by simp [ms]
  exact ⟨_, w, hp, rfl, hpublished, hrun, by decide, by decide +kernel⟩

end Service

end NotificationQueue
