import NotificationQueue.Proofs.Service.History
import NotificationQueue.Proofs.Service.Read
import NotificationQueue.Proofs.Uuid

/-!
What a cursor stands for. The events that a reader has seen rise, and everything live below the last
of them has been seen; writes that are still to land lie above it; and its own entry is still there,
or only higher ones are. Each step of a service keeps all this, as long as its wall clock does not
go back and the calendar reaches, and so does each read of a queue.
-/
namespace NotificationQueue
set_option autoImplicit false

/-! ## Parts of rising lists -/

theorem Queue.mem_or_lt_of_suffix {l t : List Entry}
    (h : l.Pairwise fun a b => a.score < b.score) (ht : t <:+ l) {x : Entry} (hx : x ∈ l) :
    x ∈ t ∨ ∀ y ∈ t, x.score < y.score := by
  obtain ⟨front, rfl⟩ := ht
  rcases List.mem_append.1 hx with hx | hx
  · exact .inr fun y hy => (List.pairwise_append.1 h).2.2 x hx y hy
  · exact .inl hx

theorem Event.exists_last {seen : List Event} (h : seen.Pairwise fun a b => a.score < b.score)
    {e : Event} (he : e ∈ seen) : ∃ l, seen.getLast? = some l ∧ e.score ≤ l.score := by
  cases hl : seen.getLast? with
  | none =>
    rw [List.getLast?_eq_none_iff] at hl
    subst hl
    cases he
  | some l =>
    refine ⟨l, rfl, ?_⟩
    obtain ⟨front, rfl⟩ := List.getLast?_eq_some_iff.1 hl
    rcases List.mem_append.1 he with he | he
    · exact Int.le_of_lt ((List.pairwise_append.1 h).2.2 e he l (List.mem_singleton_self l))
    · have hlast := List.mem_singleton.1 he
      exact Int.le_of_eq (congrArg Event.score hlast)

namespace Core

variable {c c' : Core} {log : List Notice} {l : Option Notice} {d : Int}
  {subject : Subject} {type : Option EventType} {seen : List Event}

/-! ## What has been seen -/

/-- A reader of a subject's queue has seen some events of a type, and nothing below the last of them
is left for it. -/
structure Follows (c : Core) (log : List Notice) (subject : Subject) (type : Option EventType)
    (seen : List Event) : Prop where
  rising : seen.Pairwise fun a b => a.score < b.score
  posted : ∀ e ∈ seen, ⟨subject, e⟩ ∈ log ∧ e.Fits type
  passed : ∀ e ∈ seen, ∀ i w, c.writes i = some w → w.phase = .appending → e.score < w.score
  complete : ∀ e ∈ seen, ∀ x ∈ c.store.liveEntries subject.key c.wall, x.score ≤ e.score →
    x.event.Fits type → x.event ∈ seen
  anchored : ∀ e, seen.getLast? = some e →
    (∃ x ∈ c.store.entries subject.key, x.event = e) ∨
      ∀ x ∈ c.store.entries subject.key, e.score < x.score

theorem follows_nil (c : Core) (log : List Notice) (subject : Subject)
    (type : Option EventType) : c.Follows log subject type [] where
  rising := List.Pairwise.nil
  posted := nofun
  passed := nofun
  complete := nofun
  anchored := nofun

def Granted (c : Core) (horizon : Score) : Prop :=
  horizon ≤ max c.wall c.clock.last ∧
    ∀ i w, c.writes i = some w → w.phase = .appending → horizon ≤ w.score

/-- Where the reading of a queue starts: right above the last event seen, or at the start of a queue
of which nothing live has been seen. -/
def Starts (c : Core) (subject : Subject) (seen : List Event) : Option Score → Prop
  | some least => ∃ e, seen.getLast? = some e ∧ least = e.score + 1
  | none => ∀ e, seen.getLast? = some e →
    ∀ x ∈ c.store.liveEntries subject.key c.wall, e.score < x.score

/-! ## What each step keeps -/

theorem Fades.live (hf : c.Fades c') (hwall : c.wall ≤ c'.wall) (k : String) :
    c'.store.liveEntries k c'.wall <:+ c.store.liveEntries k c.wall :=
  (hf.store.live k c'.wall hwall).trans (c.store.liveEntries_mono k hwall)

theorem Fades.appending (hf : c.Fades c') {i : Nat} {w' : Write} (hw' : c'.writes i = some w')
    (hp : w'.phase = .appending) :
    ∃ w, c.writes i = some w ∧ w.phase = .appending ∧ w'.score = w.score := by
  obtain ⟨w, hw, -, hscore, -, -, happ⟩ := hf.write i w' hw'
  exact ⟨w, hw, happ hp, hscore⟩

theorem appending_stamp {id i : Nat} {dr : Draft} {w : Write}
    (hw : (c.stamp id dr).writes i = some w) :
    w.score = (c.clock.reserve c.wall).1 ∨ c.writes i = some w := by
  rcases writes_setWrite hw with ⟨-, hw⟩ | ⟨-, hw⟩
  · cases hw
    exact .inl rfl
  · exact .inr hw

theorem appending_land {id i : Nat} {w v : Write} (hv : (c.land id w).writes i = some v)
    (hp : v.phase = .appending) : c.writes i = some v := by
  rcases writes_setWrite hv with ⟨-, hv⟩ | ⟨-, hv⟩
  · cases hv
    cases hp
  · exact hv

theorem live_land {id : Nat} {w : Write} {k : String} {x : Entry}
    (hx : x ∈ (c.land id w).store.liveEntries k (c.land id w).wall) :
    x.score = w.score ∨ x ∈ c.store.liveEntries k c.wall := by
  rcases Store.mem_liveEntries_append (Int.le_refl c.wall) hx with ⟨-, rfl⟩ | hx
  · exact .inl rfl
  · exact .inr hx

theorem score_of_lost {id : Nat} {w : Write} {k : String} {x y : Entry}
    (hx : x ∈ c.store.entries k) (hlost : x ∉ (c.land id w).store.entries k)
    (hy : y ∈ (c.land id w).store.entries k) : y.score = w.score := by
  simp only [Core.land, setWrite, Store.entries_append] at hlost hy
  split at hy
  · next hk =>
    rw [if_pos hk] at hlost
    subst hk
    rcases c.store.liveEntries_eq w.key c.wall with hlive | hlive
    · rw [hlive] at hlost
      exact absurd (Queue.mem_insertEntry.2 (.inr hx)) hlost
    · rw [hlive] at hy
      rcases Queue.mem_insertEntry.1 hy with rfl | hy
      · rfl
      · cases hy
  · next hk =>
    rw [if_neg hk] at hlost
    exact absurd hx hlost

theorem Follows.fades (h : c.Follows log subject type seen) (hs : c.Sound log) (hf : c.Fades c')
    (hwall : c.wall ≤ c'.wall) : c'.Follows log subject type seen where
  rising := h.rising
  posted := h.posted
  passed e he i w' hw' hp := by
    obtain ⟨w, hw, hpw, hscore⟩ := hf.appending hw' hp
    rw [hscore]
    exact h.passed e he i w hw hpw
  complete e he x hx := h.complete e he x ((hf.live hwall _).subset hx)
  anchored e he := by
    have hsuffix := hf.store.suffix subject.key
    rcases h.anchored e he with ⟨x, hx, rfl⟩ | habove
    · -- Entries are lost from the front only: with this one gone, those left lie above it.
      rcases Queue.mem_or_lt_of_suffix (hs.strict _) hsuffix hx with hx' | hlt
      · exact .inl ⟨x, hx', rfl⟩
      · obtain ⟨-, -, -, -, hscore⟩ := hs.entry _ x hx
        rw [hscore]
        exact .inr hlt
    · exact .inr fun x hx => habove x (hsuffix.subset hx)

theorem Follows.stamp (h : c.Follows log subject type seen) (hs : c.Sound log) {id : Nat}
    {dr : Draft} (hcal : (c.stamp id dr).clock.last ≤ Timestamp.latest.score) :
    (c.stamp id dr).Follows (log ++ [c.notice dr]) subject type seen where
  rising := h.rising
  posted e he := ⟨List.mem_append_left _ (h.posted e he).1, (h.posted e he).2⟩
  passed e he i w hw hp := by
    rcases appending_stamp hw with hscore | hw
    · have hlast : e.score ≤ c.clock.last := hs.le_last _ (h.posted e he).1
      have hnew := Clock.last_lt_of_candidate_le hcal
      have hgiven := Clock.reserve_score_of_le hs.clock.last_nonneg hcal
      lia
    · exact h.passed e he i w hw hp
  complete := h.complete
  anchored := h.anchored

theorem Follows.land (h : c.Follows log subject type seen) {id : Nat} {w : Write}
    (hw : c.writes id = some w) (hp : w.phase = .appending) :
    (c.land id w).Follows log subject type seen where
  rising := h.rising
  posted := h.posted
  passed e he i v hv hpv := h.passed e he i v (appending_land hv hpv) hpv
  complete e he x hx hle := by
    rcases live_land hx with hscore | hx
    · have hlt := h.passed e he id w hw hp
      lia
    · exact h.complete e he x hx hle
  anchored e he := by
    have hlt := h.passed e (List.mem_of_getLast? he) id w hw hp
    rcases h.anchored e he with ⟨x, hx, rfl⟩ | habove
    · by_cases hkept : x ∈ (c.land id w).store.entries subject.key
      · exact .inl ⟨x, hkept, rfl⟩
      · refine .inr fun y hy => ?_
        have hscore := score_of_lost hx hkept hy
        lia
    · refine .inr fun x hx => ?_
      rcases entries_land hx with ⟨-, rfl⟩ | hx
      · exact hlt
      · exact habove x hx

theorem Follows.step (h : c.Follows log subject type seen) (hs : c.Sound log)
    (hstep : c.Step l d c') (hd : 0 ≤ d) (hcal : c'.clock.last ≤ Timestamp.latest.score) :
    c'.Follows (log ++ l.toList) subject type seen := by
  have hwall : c.wall ≤ c'.wall := hstep.wall_le hd
  rcases hstep.cases hs.store with ⟨rfl, hf⟩ | ⟨id, dr, -, rfl, rfl⟩ | ⟨id, w, hw, hp, rfl, rfl⟩
  · rw [Option.toList_none, List.append_nil]
    exact h.fades hs hf hwall
  · exact h.stamp hs hcal
  · rw [Option.toList_none, List.append_nil]
    exact h.land hw hp

theorem Granted.step {horizon : Score} (h : c.Granted horizon) (hs : c.Sound log)
    (hstep : c.Step l d c') (hd : 0 ≤ d) (hcal : c'.clock.last ≤ Timestamp.latest.score) :
    c'.Granted horizon := by
  obtain ⟨hnow, hpassed⟩ := h
  have hwall : c.wall ≤ c'.wall := hstep.wall_le hd
  have hlast := hstep.last_le hcal
  refine ⟨by lia, fun i w' hw' hp => ?_⟩
  rcases hstep.cases hs.store with ⟨-, hf⟩ | ⟨id, dr, hfree, -, rfl⟩ | ⟨id, w, hw, hpw, -, rfl⟩
  · obtain ⟨w, hw, hpw, hscore⟩ := hf.appending hw' hp
    rw [hscore]
    exact hpassed i w hw hpw
  · rcases appending_stamp hw' with hscore | hw
    · have hnew := Clock.last_lt_of_candidate_le hcal
      have hgiven := Clock.reserve_score_of_le hs.clock.last_nonneg hcal
      have hread : c.wall ≤ c.clock.candidate c.wall := Clock.wall_le_candidate
      lia
    · exact hpassed i w' hw hp
  · exact hpassed i w' (appending_land hw' hp) hp

theorem Starts.step {least : Option Score} (h : c.Starts subject seen least)
    (hseen : c.Follows log subject type seen) (hs : c.Sound log) (hstep : c.Step l d c')
    (hd : 0 ≤ d) : c'.Starts subject seen least := by
  cases least with
  | some m => exact h
  | none =>
    intro e he x hx
    have hwall : c.wall ≤ c'.wall := hstep.wall_le hd
    rcases hstep.cases hs.store with ⟨-, hf⟩ | ⟨id, dr, hfree, -, rfl⟩ | ⟨id, w, hw, hp, -, rfl⟩
    · exact h e he x ((hf.live hwall _).subset hx)
    · exact h e he x hx
    · rcases live_land hx with hscore | hx
      · have := hseen.passed e (List.mem_of_getLast? he) id w hw hp
        lia
      · exact h e he x hx

/-! ## What each read keeps -/

structure Named (log : List Notice) : Prop where
  wellFormed : ∀ n ∈ log, n.event.id.IsWellFormed
  distinct : ∀ m ∈ log, ∀ n ∈ log, m.event.id = n.event.id → m = n

def cursorBehind (seen : List Event) : Option String :=
  seen.getLast?.map (·.id.write)

def Delivers (c : Core) (log : List Notice) (q : Query) (seen : List Event) (b : Batch) : Prop :=
  c.Follows log q.subject q.type (seen ++ b.events) ∧
    b.nextCursor = cursorBehind (seen ++ b.events)

def Reads (c : Core) (log : List Notice) (q : Query) (seen : List Event) : ReadPhase → Prop
  | .locating id => ∃ e, seen.getLast? = some e ∧ id = e.id
  | .bounding least => c.Starts q.subject seen least
  | .ranging least horizon => c.Starts q.subject seen least ∧ c.Granted horizon
  | .finished (.ok b) => c.Delivers log q seen b
  | .finished (.error _) => True

variable {q : Query}

theorem cursorOf_cursorBehind (seen : List Event) :
    cursorOf (cursorBehind seen) = cursorBehind seen := by
  unfold cursorBehind cursorOf
  cases seen.getLast? with
  | none => rfl
  | some e => simp [Option.filter, Uuid.write_ne_empty]

theorem start_behind (hn : Named log) (hseen : c.Follows log q.subject type seen)
    (hcursor : q.cursor = cursorBehind seen) :
    q.start = seen.getLast?.elim (.bounding none) fun e => .locating e.id := by
  unfold Query.start
  rw [hcursor, cursorOf_cursorBehind, cursorBehind]
  cases hl : seen.getLast? with
  | none => rfl
  | some e =>
    have hposted := (hseen.posted e (List.mem_of_getLast? hl)).1
    have hread : Uuid.read? e.id.write = some e.id := Uuid.read?_write (hn.wellFormed _ hposted)
    simp only [Option.map_some, Option.bind_some, hread]
    rfl

theorem reads_start (hn : Named log) (hseen : c.Follows log q.subject q.type seen)
    (hcursor : q.cursor = cursorBehind seen) : c.Reads log q seen q.start := by
  rw [start_behind hn hseen hcursor]
  cases hl : seen.getLast? with
  | none =>
    intro e he
    rw [hl] at he
    cases he
  | some e => exact ⟨e, hl, rfl⟩

theorem Sound.posted (hs : c.Sound log) {x : Entry} (hx : x ∈ c.store.entries subject.key) :
    ⟨subject, x.event⟩ ∈ log ∧ x.event.score = x.score := by
  obtain ⟨⟨subject', event⟩, hn, hkey, rfl, hscore⟩ := hs.entry _ x hx
  have hsubject : subject' = subject := Subject.key_injective hkey
  subst hsubject
  exact ⟨hn, hscore⟩

theorem Sound.score_of_live (hs : c.Sound log) {x : Entry}
    (hx : x ∈ c.store.liveEntries subject.key c.wall) : x.event.score = x.score :=
  (hs.posted ((c.store.liveEntries_suffix _ _).subset hx)).2

theorem Sound.live_rising (hs : c.Sound log) (subject : Subject) :
    (c.store.liveEntries subject.key c.wall).Pairwise fun a b => a.score < b.score :=
  (hs.strict subject.key).sublist (c.store.liveEntries_suffix _ _).sublist

theorem starts_of_find? (hs : c.Sound log) (hn : Named log)
    (hcal : c.clock.last ≤ Timestamp.latest.score) (hseen : c.Follows log subject type seen)
    {e : Event} (he : seen.getLast? = some e) :
    c.Starts subject seen
      ((c.store.find? subject.key e.id c.wall).map fun f => Score.succ f.score) := by
  have hposted := (hseen.posted e (List.mem_of_getLast? he)).1
  rw [Store.find?_eq]
  cases hf : (c.store.liveEntries subject.key c.wall).find? fun x => x.event.id = e.id with
  | none =>
    intro e' he' x hx
    rw [he] at he'
    cases he'
    -- The event behind the cursor is gone or hidden: then all that can be read lies above it.
    rcases hseen.anchored e he with ⟨x₀, hx₀, rfl⟩ | habove
    · rcases c.store.liveEntries_eq subject.key c.wall with hlive | hlive
      · rw [← hlive] at hx₀
        exact absurd (List.find?_eq_none.1 hf x₀ hx₀) (by simp)
      · rw [hlive] at hx
        cases hx
    · exact habove x ((c.store.liveEntries_suffix _ _).subset hx)
  | some x =>
    have hid : x.event.id = e.id := by simpa using List.find?_some hf
    have hx := (c.store.liveEntries_suffix _ _).subset (List.mem_of_find?_eq_some hf)
    have hsame := hn.distinct _ (hs.posted hx).1 _ hposted hid
    have hevent : x.event = e := congrArg Notice.event hsame
    have hlast := hs.le_last _ hposted
    have hlatest := Timestamp.latest_score
    refine ⟨e, he, ?_⟩
    rw [hevent]
    have hbound : e.score ≤ c.clock.last := hlast
    unfold Score.succ Score.greatest
    lia

theorem Starts.le_iff {least : Option Score} (h : c.Starts subject seen least) (hs : c.Sound log)
    {x : Entry} (hx : x ∈ c.store.liveEntries subject.key c.wall) :
    least.getD Score.least ≤ x.score ↔ ∀ e, seen.getLast? = some e → e.score < x.score := by
  cases least with
  | some m =>
    obtain ⟨e, he, rfl⟩ := h
    constructor
    · intro hle e' he'
      rw [he] at he'
      cases he'
      rw [Option.getD_some] at hle
      lia
    · intro hall
      have := hall e he
      rw [Option.getD_some]
      lia
  | none =>
    have hstored := (c.store.liveEntries_suffix _ _).subset hx
    obtain ⟨hposted, hscore⟩ := hs.posted hstored
    have hpos : 0 < x.event.score := hs.pos _ hposted
    constructor
    · exact fun _ e he => h e he x hx
    · intro _
      rw [Option.getD_none]
      unfold Score.least
      lia

theorem Sound.between_rising (hs : c.Sound log) (q : Query) (least : Option Score)
    (greatest : Score) :
    ((q.between c.store c.wall least greatest).map Entry.event).Pairwise
      fun a b => a.score < b.score := by
  rw [List.pairwise_map]
  have hstrict : (q.between c.store c.wall least greatest).Pairwise
      fun a b => a.score < b.score := (hs.strict q.subject.key).sublist Query.between_sublist
  refine hstrict.imp_of_mem fun hx hy hlt => ?_
  rw [(hs.posted (Query.between_sublist.subset hx)).2,
    (hs.posted (Query.between_sublist.subset hy)).2]
  exact hlt

theorem nextCursor_ranged (store : Store) (wall : Score) (least : Option Score)
    (greatest : Score) (hcursor : q.cursor = cursorBehind seen) :
    (q.ranged store wall least greatest).nextCursor =
      cursorBehind (seen ++ (q.ranged store wall least greatest).events) := by
  simp only [Query.ranged, Query.batch, Batch.ofEvents, hcursor, cursorOf_cursorBehind]
  unfold cursorBehind
  rw [List.getLast?_append]
  cases List.getLast? (q.select _) with
  | none => simp
  | some e => simp

section

variable {least : Option Score} {greatest : Score} {e : Event}

theorem Sound.of_mem_ranged (hs : c.Sound log)
    (he : e ∈ (q.ranged c.store c.wall least greatest).events) :
    (⟨q.subject, e⟩ ∈ log ∧ e.Fits q.type) ∧
      ∃ x ∈ c.store.liveEntries q.subject.key c.wall, x.event = e ∧ x.score = e.score ∧
        least.getD Score.least ≤ x.score ∧ x.score ≤ greatest := by
  have hranged := ReadPhase.step_ranging_done q c.store c.clock c.wall least greatest
  obtain ⟨hfits, x, hx, rfl⟩ := ReadPhase.mem_of_ranging hranged he
  obtain ⟨hlive, hbounds⟩ := Query.mem_between.1 hx
  obtain ⟨hposted, hscore⟩ := hs.posted ((c.store.liveEntries_suffix _ _).subset hlive)
  exact ⟨⟨hposted, hfits⟩, x, hlive, rfl, hscore.symm, hbounds⟩

theorem Sound.ranged_rising (hs : c.Sound log) (q : Query) (least : Option Score)
    (greatest : Score) :
    (q.ranged c.store c.wall least greatest).events.Pairwise fun a b => a.score < b.score := by
  have hinit := (List.take_prefix q.fetchLimit (q.between c.store c.wall least greatest)).map
    Entry.event
  have hfetched := (hs.between_rising q least greatest).sublist hinit.sublist
  exact hfetched.sublist (q.select_sublist _)

theorem Sound.ranged_complete (hs : c.Sound log)
    (he : e ∈ (q.ranged c.store c.wall least greatest).events) {x : Entry}
    (hx : x ∈ c.store.liveEntries q.subject.key c.wall) (hleast : least.getD Score.least ≤ x.score)
    (hle : x.score ≤ e.score) (hfits : x.event.Fits q.type) :
    x.event ∈ (q.ranged c.store c.wall least greatest).events := by
  obtain ⟨-, y, -, -, hy, -, hgreatest⟩ := hs.of_mem_ranged he
  have hxscore := hs.score_of_live hx
  have hbetween : x ∈ q.between c.store c.wall least greatest :=
    Query.mem_between.2 ⟨hx, hleast, by lia⟩
  have hinit := (List.take_prefix q.fetchLimit (q.between c.store c.wall least greatest)).map
    Entry.event
  exact Query.mem_select_of_le (hs.between_rising q least greatest) hinit
    (List.mem_map_of_mem hbetween) hfits he (by lia)

theorem Starts.lt_ranged (hstarts : c.Starts q.subject seen least) (hs : c.Sound log)
    (hseen : c.Follows log q.subject q.type seen)
    (he : e ∈ (q.ranged c.store c.wall least greatest).events) {f : Event} (hf : f ∈ seen) :
    f.score < e.score := by
  obtain ⟨-, x, hx, -, hscore, hleast, -⟩ := hs.of_mem_ranged he
  obtain ⟨last, hlast, hle⟩ := Event.exists_last hseen.rising hf
  have hlt := (hstarts.le_iff hs hx).1 hleast last hlast
  lia

end

/-- **A range read goes on where the reader has stopped**, and leaves nothing out. -/
theorem Follows.ranged (hseen : c.Follows log q.subject q.type seen) (hs : c.Sound log)
    {least : Option Score} {horizon : Score} (hstarts : c.Starts q.subject seen least)
    (hgranted : c.Granted horizon) :
    c.Follows log q.subject q.type (seen ++ (q.ranged c.store c.wall least horizon).events) where
  rising := List.pairwise_append.2 ⟨hseen.rising, hs.ranged_rising q least horizon,
    fun _ hf _ he => hstarts.lt_ranged hs hseen he hf⟩
  posted e he := by
    rcases List.mem_append.1 he with he | he
    · exact hseen.posted e he
    · exact (hs.of_mem_ranged he).1
  passed e he i w hw hp := by
    rcases List.mem_append.1 he with he | he
    · exact hseen.passed e he i w hw hp
    · -- The horizon lies at or below the pending write, which shares its score with no entry.
      obtain ⟨-, x, hx, -, hscore, -, hle⟩ := hs.of_mem_ranged he
      have hne := hs.unlanded _ x ((c.store.liveEntries_suffix _ _).subset hx) i w hw hp
      have habove := hgranted.2 i w hw hp
      lia
  complete e he x hx hle hfits := by
    by_cases hold : ∃ f ∈ seen, x.score ≤ f.score
    · obtain ⟨f, hf, hxf⟩ := hold
      exact List.mem_append_left _ (hseen.complete f hf x hx hxf hfits)
    · have hfresh := (List.mem_append.1 he).resolve_left fun he => hold ⟨e, he, hle⟩
      have hleast := (hstarts.le_iff hs hx).2 fun last hlast => by
        have hnot : ¬ x.score ≤ last.score := fun h => hold ⟨last, List.mem_of_getLast? hlast, h⟩
        lia
      exact List.mem_append_right _ (hs.ranged_complete hfresh hx hleast hle hfits)
  anchored e he := by
    rw [List.getLast?_append] at he
    cases hlast : (q.ranged c.store c.wall least horizon).events.getLast? with
    | none =>
      rw [hlast, Option.none_or] at he
      exact hseen.anchored e he
    | some f =>
      rw [hlast, Option.some_or] at he
      cases he
      obtain ⟨-, x, hx, hxe, -⟩ := hs.of_mem_ranged (List.mem_of_getLast? hlast)
      exact .inl ⟨x, (c.store.liveEntries_suffix _ _).subset hx, hxe⟩

theorem Sound.granted (hs : c.Sound log) : c.Granted (c.clock.horizon c.wall) := by
  refine ⟨hs.clock.horizon_le, fun i w hw hp => ?_⟩
  have hpending := hs.pending i w hw (by rw [hp]; trivial)
  exact Int.le_of_lt (hs.clock.horizon_lt hpending)

/-- **One step of a read goes on where the reader has stopped.** -/
theorem Reads.next {phase : ReadPhase} (h : c.Reads log q seen phase) (hs : c.Sound log)
    (hn : Named log) (hcal : c.clock.last ≤ Timestamp.latest.score)
    (hseen : c.Follows log q.subject q.type seen) (hcursor : q.cursor = cursorBehind seen)
    (a : Answer) : c.Reads log q seen (phase.step q c.store c.clock c.wall a) := by
  cases phase with
  | locating id =>
    cases a with
    | waiting => exact h
    | failed f => trivial
    | done =>
      obtain ⟨e, he, rfl⟩ := h
      exact starts_of_find? hs hn hcal hseen he
  | bounding least => exact ⟨h, hs.granted⟩
  | ranging least horizon =>
    cases a with
    | waiting => exact h
    | failed f => trivial
    | done =>
      rw [ReadPhase.step_ranging_done]
      exact ⟨hseen.ranged hs h.1 h.2, nextCursor_ranged _ _ _ _ hcursor⟩
  | finished result => exact h

theorem Reads.step {phase : ReadPhase} (h : c.Reads log q seen phase) (hs : c.Sound log)
    (hseen : c.Follows log q.subject q.type seen) (hstep : c.Step l d c') (hd : 0 ≤ d)
    (hcal : c'.clock.last ≤ Timestamp.latest.score) :
    c'.Reads (log ++ l.toList) q seen phase := by
  cases phase with
  | locating id => exact h
  | bounding least => exact Starts.step h hseen hs hstep hd
  | ranging least horizon =>
    exact ⟨Starts.step h.1 hseen hs hstep hd, Granted.step h.2 hs hstep hd hcal⟩
  | finished result =>
    cases result with
    | ok b => exact ⟨Follows.step h.1 hs hstep hd hcal, h.2⟩
    | error f => trivial

end Core

end NotificationQueue
