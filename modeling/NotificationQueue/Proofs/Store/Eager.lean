import NotificationQueue.Proofs.Store.Entries
import Mathlib.Data.List.Perm.Basic

/-!
A store without hidden queues: it drops a queue the instant its deadline has come, and keeps bare
lists of scored events in place of numbered entries. To its callers the store that hides expired
queues behaves just like it, and purges that come in between make no difference.
-/
namespace NotificationQueue
set_option autoImplicit false

namespace Store

/-! ## Calls -/

inductive Call where
  | append (key : String) (score : Score) (event : Event)
  | range (key : String) (least : Option Score) (greatest : Score) (limit : Nat)
  | trim (key : String) (keep : Nat)
  | find (key : String) (id : Uuid)
  | expire (key : String) (retention : Duration)
  | size (key : String)
  | count
  | purge
  | clear

inductive Reply where
  | nothing
  | events (l : List Event)
  | found (e : Option Event)
  | number (n : Nat)

namespace Call

def isPurge : Call → Bool
  | .purge => true
  | _ => false

def Fits : Call → Prop
  | .append _ score _ => Score.least ≤ score ∧ score ≤ Score.greatest
  | .trim _ keep => keep ≤ Text.maxWord64
  | _ => True

instance : (c : Call) → Decidable c.Fits
  | .append .. => inferInstanceAs (Decidable (_ ∧ _))
  | .trim .. => inferInstanceAs (Decidable (_ ≤ _))
  | .range .. | .find .. | .expire .. | .size _ | .count | .purge | .clear =>
    inferInstanceAs (Decidable True)

/-- What a caller may rely on in a reply: the number of entries removed from a queue counts only
while the queue is live. -/
def observed (live : String → Bool) (c : Call) (r : Reply) : Reply :=
  match c with
  | .append .. | .purge | .clear => .nothing
  | .trim key _ | .expire key _ => if live key then r else .nothing
  | .range .. | .find .. | .size _ | .count => r

end Call

def call (s : Store) (wall : Score) : Call → Reply × Store
  | .append key score event => (.nothing, s.append key score event wall)
  | .range key least greatest limit => (.events (s.range key least greatest limit wall), s)
  | .trim key keep => let (n, t) := s.trim key keep; (.number n, t)
  | .find key id => (.found (s.find? key id wall), s)
  | .expire key retention => let (n, t) := s.expire key retention wall; (.number n, t)
  | .size key => (.number (s.size key wall), s)
  | .count => (.number (s.liveCount wall), s)
  | .purge => let (n, t) := s.purge wall; (.number n, t)
  | .clear => (.nothing, s.clear)

def less? (n m : Nat) : Option Nat :=
  if m ≤ n then some (n - m) else none

/-- The events of a queue between two scores; a map cannot be asked for a range that ends before it
starts. -/
def slice? (q : Queue) (least greatest : Score) (limit : Nat) : Option (List Event) :=
  if greatest < least then none else some (q.range least greatest limit)

/-- A call carried out by operations that may break down; nothing comes of it if one of them does.
The bounds of a range are compared before the map is asked. -/
def call? (s : Store) (wall : Score) : Call → Option (Reply × Store)
  | .range key least greatest limit =>
    let least := least.getD Score.least
    if greatest < least ∨ limit = 0 then some (.events [], s)
    else
      match s.live? key wall with
      | none => some (.events [], s)
      | some q => (slice? q least greatest limit).map fun events => (.events events, s)
  | .trim key keep =>
    match s.queue? key with
    | none => some (.number 0, s)
    | some q =>
      if q.entries.length ≤ min (2 * keep) Text.maxWord64 then some (.number 0, s)
      else
        (less? q.entries.length keep).map fun excess =>
          (.number excess, s.setQueue key { q with entries := q.entries.drop excess })
  | .expire key retention =>
    match s.queue? key with
    | none => some (.number 0, s)
    | some q =>
      let kept := q.entries.filter fun e => cutoff wall retention ≤ e.score
      (less? q.entries.length kept.length).map fun removed =>
        (.number removed, s.setQueue key { q with entries := kept })
  | .purge =>
    let kept := s.queues.filter fun (_, q) => ! q.isExpired (Instant.ofScore wall)
    (less? s.queues.length kept.length).map fun removed =>
      (.number removed, { s with queues := kept })
  | c => some (s.call wall c)

/-- What callers see of calls at rising readings of the wall clock, purges left out; nothing at all
if one of the calls breaks down. -/
def answers? (s : Store) : List (Score × Call) → Option (List Reply)
  | [] => some []
  | (wall, c) :: rest =>
    match s.call? wall c with
    | none => none
    | some (r, t) =>
      let reply := c.observed (fun key => (s.live? key wall).isSome) r
      (t.answers? rest).map fun replies => if c.isPurge then replies else reply :: replies

end Store

/-! ## The eager store -/

structure EagerQueue where
  events : List (Score × Event)
  deadline : Instant

/-- A store that has no expired queues whenever it is called. -/
structure EagerStore where
  queues : List (String × EagerQueue) := []

namespace EagerStore

def asOf (s : EagerStore) (wall : Score) : EagerStore :=
  ⟨s.queues.filter fun (_, q) => Instant.ofScore wall < q.deadline⟩

def get? (s : EagerStore) (key : String) : Option EagerQueue :=
  (s.queues.find? (·.1 = key)).map Prod.snd

def set (s : EagerStore) (key : String) (q : EagerQueue) : EagerStore :=
  ⟨(key, q) :: s.queues.filter (·.1 ≠ key)⟩

def events (s : EagerStore) (key : String) : List (Score × Event) :=
  ((s.get? key).map EagerQueue.events).getD []

def insert (score : Score) (event : Event) (l : List (Score × Event)) : List (Score × Event) :=
  l.takeWhile (·.1 ≤ score) ++ (score, event) :: l.dropWhile (·.1 ≤ score)

def modify (s : EagerStore) (key : String) (f : List (Score × Event) → List (Score × Event)) :
    Store.Reply × EagerStore :=
  match s.get? key with
  | none => (.number 0, s)
  | some q =>
    (.number (q.events.length - (f q.events).length), s.set key { q with events := f q.events })

def call (s : EagerStore) (wall : Score) (c : Store.Call) : Store.Reply × EagerStore :=
  let s := s.asOf wall
  match c with
  | .append key score event =>
    (.nothing, s.set key
      ⟨insert score event (s.events key), (Instant.ofScore wall).plusSeconds event.ttl⟩)
  | .range key least greatest limit =>
    let inside := (s.events key).filter fun (score, _) =>
      least.all (· ≤ score) && score ≤ greatest
    (.events ((inside.take limit).map Prod.snd), s)
  | .trim key keep => s.modify key (Queue.newest keep)
  | .find key id => (.found (((s.events key).map Prod.snd).find? (·.id = id)), s)
  | .expire key retention =>
    s.modify key fun l => l.filter fun (score, _) => cutoff wall retention ≤ score
  | .size key => (.number (s.events key).length, s)
  | .count => (.number s.queues.length, s)
  | .purge => (.number 0, s)
  | .clear => (.nothing, {})

def answers (s : EagerStore) : List (Score × Store.Call) → List Store.Reply
  | [] => []
  | (wall, c) :: rest =>
    let reply := c.observed (fun key => ((s.asOf wall).get? key).isSome) (s.call wall c).1
    let replies := (s.call wall c).2.answers rest
    if c.isPurge then replies else reply :: replies

variable {r : EagerStore} {k key : String} {wall w : Score}

theorem get?_asOf (h : (r.queues.map Prod.fst).Nodup) (k : String) (wall : Score) :
    (r.asOf wall).get? k = (r.get? k).filter fun q => Instant.ofScore wall < q.deadline := by
  simp only [get?, asOf, Store.find?_filter _ k h]
  cases r.queues.find? fun x => decide (x.1 = k) with
  | none => rfl
  | some x => by_cases hx : Instant.ofScore wall < x.2.deadline <;> simp [Option.filter, hx]

theorem asOf_asOf (h : wall ≤ w) : (r.asOf wall).asOf w = r.asOf w := by
  have hle : Instant.ofScore wall ≤ Instant.ofScore w := by
    simp only [Instant.ofScore]
    lia
  simp only [asOf, List.filter_filter, EagerStore.mk.injEq]
  refine List.filter_congr fun x _ => ?_
  rw [Bool.eq_iff_iff, Bool.and_eq_true, decide_eq_true_eq, decide_eq_true_eq]
  exact ⟨And.left, fun hx => ⟨hx, Int.lt_of_le_of_lt hle hx⟩⟩

theorem get?_set (r : EagerStore) (key k : String) (q : EagerQueue) :
    (r.set key q).get? k = if k = key then some q else r.get? k := by
  by_cases h : k = key
  · simp [get?, set, h]
  · have hfilter : (r.queues.filter fun x => x.1 ≠ key).find? (fun x => decide (x.1 = k)) =
        r.queues.find? fun x => decide (x.1 = k) := by
      rw [List.find?_filter]
      congr 1
      funext x
      by_cases hx : x.1 = k <;> simp [hx, h]
    simp only [get?, set, if_neg h]
    rw [List.find?_cons_of_neg (by simpa using Ne.symm h), hfilter]

theorem nodup_set {q : EagerQueue} (h : (r.queues.map Prod.fst).Nodup) :
    ((r.set key q).queues.map Prod.fst).Nodup := by
  simp only [set, List.map_cons, List.nodup_cons]
  refine ⟨fun hk => ?_, h.sublist (List.filter_sublist.map Prod.fst)⟩
  obtain ⟨x, hx, hxk⟩ := List.mem_map.1 hk
  have := (List.mem_filter.1 hx).2
  simp [hxk] at this

theorem nodup_asOf (h : (r.queues.map Prod.fst).Nodup) :
    ((r.asOf wall).queues.map Prod.fst).Nodup :=
  h.sublist (List.filter_sublist.map Prod.fst)

end EagerStore

/-! ## Simulation -/

def Entry.plain (e : Entry) : Score × Event := (e.score, e.event)

def Queue.plain (q : Queue) : EagerQueue := ⟨q.entries.map Entry.plain, q.deadline⟩

theorem Queue.filter_plain (q : Option Queue) (t : Instant) :
    ((q.map Queue.plain).filter fun q => t < q.deadline) =
      (q.filter fun q => ! q.isExpired t).map Queue.plain := by
  cases q with
  | none => rfl
  | some q =>
    have hiff : decide (t < q.plain.deadline) = ! q.isExpired t := by
      rw [Queue.isExpired, ← decide_not, decide_eq_decide]
      exact Int.not_le.symm
    rw [Option.map_some]
    cases hx : q.isExpired t with
    | true => simp [Option.filter, hiff, hx]
    | false => simp [Option.filter, hiff, hx]

structure Store.Shows (s : Store) (r : EagerStore) (wall : Score) : Prop where
  sound : s.Sound
  fits : ∀ k, ∀ e ∈ s.entries k, Score.least ≤ e.score
  nodup : (r.queues.map Prod.fst).Nodup
  agree : ∀ k, (r.asOf wall).get? k = (s.live? k wall).map Queue.plain

namespace Store.Shows

variable {s t : Store} {r : EagerStore} {k key : String} {wall w : Score}

theorem empty (wall : Score) : Store.Shows {} {} wall where
  sound := Store.sound_empty
  fits _ _ he := nomatch he
  nodup := List.Pairwise.nil
  agree _ := rfl

theorem later (h : s.Shows r wall) (hw : wall ≤ w) : s.Shows r w where
  sound := h.sound
  fits := h.fits
  nodup := h.nodup
  agree k := by
    rw [← EagerStore.asOf_asOf hw, EagerStore.get?_asOf (EagerStore.nodup_asOf h.nodup), h.agree,
      Queue.filter_plain, s.live?_live? hw]

theorem events_eq (h : s.Shows r wall) (k : String) :
    (r.asOf wall).events k = (s.liveEntries k wall).map Entry.plain := by
  unfold EagerStore.events Store.liveEntries
  rw [h.agree]
  cases s.live? k wall with
  | none => rfl
  | some q => rfl

theorem live_eq (h : s.Shows r wall) :
    (fun key => (s.live? key wall).isSome) = fun key => ((r.asOf wall).get? key).isSome := by
  funext key
  rw [h.agree, Option.isSome_map]

/-! ### Calls that change nothing, one queue, or some entries of one -/

theorem keep (h : s.Shows r wall) (ht : t.Sound)
    (hf : ∀ k, ∀ e ∈ t.entries k, Score.least ≤ e.score)
    (hq : ∀ k, t.live? k wall = s.live? k wall) : t.Shows (r.asOf wall) wall where
  sound := ht
  fits := hf
  nodup := EagerStore.nodup_asOf h.nodup
  agree k := by rw [EagerStore.asOf_asOf (Int.le_refl wall), h.agree, hq]

theorem put (h : s.Shows r wall) (ht : t.Sound)
    (hf : ∀ k, ∀ e ∈ t.entries k, Score.least ≤ e.score)
    {q : Queue} (hq : ∀ k, t.queue? k = if k = key then some q else s.queue? k) :
    t.Shows ((r.asOf wall).set key q.plain) wall where
  sound := ht
  fits := hf
  nodup := EagerStore.nodup_set (EagerStore.nodup_asOf h.nodup)
  agree k := by
    rw [EagerStore.get?_asOf (EagerStore.nodup_set (EagerStore.nodup_asOf h.nodup)),
      EagerStore.get?_set]
    by_cases hk : k = key
    · rw [if_pos hk, Store.live?, hq, if_pos hk, ← Queue.filter_plain]
      rfl
    · have hsame : t.live? k wall = s.live? k wall := by simp only [Store.live?, hq, if_neg hk]
      rw [if_neg hk, hsame, ← h.agree, ← EagerStore.get?_asOf (EagerStore.nodup_asOf h.nodup),
        EagerStore.asOf_asOf (Int.le_refl wall)]

theorem modify (h : s.Shows r wall) (hs : s.Shrinks t wall) (f : List Entry → List Entry)
    (g : List (Score × Event) → List (Score × Event))
    (hfg : ∀ l, g (l.map Entry.plain) = (f l).map Entry.plain)
    (hq : ∀ k, t.queue? k =
      (s.queue? k).map fun q => if k = key then { q with entries := f q.entries } else q)
    {n : Nat} (hn : ∀ q, s.queue? key = some q → n = q.entries.length - (f q.entries).length) :
    ((s.live? key wall).isSome → Store.Reply.number n = ((r.asOf wall).modify key g).1) ∧
      t.Shows ((r.asOf wall).modify key g).2 wall := by
  have hf : ∀ k, ∀ e ∈ t.entries k, Score.least ≤ e.score := fun k e he =>
    h.fits k e ((hs.suffix k).subset he)
  cases hlive : s.live? key wall with
  | none =>
    have hget : (r.asOf wall).get? key = none := by rw [h.agree, hlive]; rfl
    simp only [EagerStore.modify, hget]
    refine ⟨fun hsome => by simp at hsome, h.keep (h.sound.shrinks hs) hf fun k => ?_⟩
    by_cases hk : k = key
    · subst hk
      simp only [Store.live?, hq] at hlive ⊢
      cases hqk : s.queue? k with
      | none => rfl
      | some q =>
        rw [hqk] at hlive
        cases hx : q.isExpired (Instant.ofScore wall) with
        | true =>
          have hy : Queue.isExpired { q with entries := f q.entries } (Instant.ofScore wall) =
              true := hx
          simp [Option.filter, hx, hy]
        | false => simp [Option.filter, hx] at hlive
    · simp only [Store.live?, hq, if_neg hk, Option.map_id']
  | some q =>
    have hqk := (Store.live?_eq_some.1 hlive).1
    have hget : (r.asOf wall).get? key = some q.plain := by rw [h.agree, hlive]; rfl
    have hplain : ({ q.plain with events := g q.plain.events } : EagerQueue) =
        Queue.plain { q with entries := f q.entries } := by
      simp only [Queue.plain, hfg]
    simp only [EagerStore.modify, hget]
    refine ⟨fun _ => ?_, ?_⟩
    · rw [hn q hqk]
      simp only [Queue.plain, hfg, List.length_map]
    · rw [hplain]
      refine h.put (h.sound.shrinks hs) hf fun k => ?_
      rw [hq]
      by_cases hk : k = key
      · simp [hk, hqk]
      · simp [hk]

/-! ### Single calls -/

theorem append (h : s.Shows r wall) (score : Score) (event : Event) (hlo : Score.least ≤ score) :
    (s.append key score event wall).Shows
      ((r.asOf wall).set key ⟨EagerStore.insert score event ((r.asOf wall).events key),
        (Instant.ofScore wall).plusSeconds event.ttl⟩) wall := by
  have hnum : ∀ a ∈ s.liveEntries key wall, a.sequence < s.nextSequence := fun a ha =>
    h.sound.numbered key a ((s.liveEntries_suffix key wall).subset ha)
  have hplain : EagerStore.insert score event ((r.asOf wall).events key) =
      (Queue.insertEntry ⟨score, s.nextSequence, event⟩ (s.liveEntries key wall)).map
        Entry.plain := by
    rw [Queue.insertEntry_eq hnum, h.events_eq, EagerStore.insert, List.map_append, List.map_cons,
      List.takeWhile_map, List.dropWhile_map]
    rfl
  rw [hplain]
  refine h.put (h.sound.append key score event wall) (fun k e he => ?_) fun k =>
    s.queue?_append key k score event wall
  rw [Store.entries_append] at he
  split at he
  · rcases Queue.mem_insertEntry.1 he with rfl | he
    · exact hlo
    · exact h.fits key e ((s.liveEntries_suffix key wall).subset he)
  · exact h.fits k e he

theorem range_eq (h : s.Shows r wall) (least : Option Score) (greatest : Score) (limit : Nat) :
    s.range key least greatest limit wall =
      ((((r.asOf wall).events key).filter fun (score, _) =>
        least.all (· ≤ score) && score ≤ greatest).take limit).map Prod.snd := by
  have hfilter : ((s.liveEntries key wall).filter fun e =>
      least.getD Score.least ≤ e.score && e.score ≤ greatest) =
      (s.liveEntries key wall).filter fun e => least.all (· ≤ e.score) && e.score ≤ greatest := by
    refine List.filter_congr fun e he => ?_
    cases least with
    | none =>
      have := h.fits key e ((s.liveEntries_suffix key wall).subset he)
      simp [this]
    | some m => simp
  rw [Store.range_eq, hfilter, h.events_eq, List.filter_map, ← List.map_take, List.map_map]
  rfl

theorem find?_eq (h : s.Shows r wall) (id : Uuid) :
    s.find? key id wall = (((r.asOf wall).events key).map Prod.snd).find? (·.id = id) := by
  rw [Store.find?_eq, h.events_eq, List.map_map, List.find?_map]
  rfl

theorem size_eq (h : s.Shows r wall) : s.size key wall = ((r.asOf wall).events key).length := by
  have hsize : s.size key wall = (s.liveEntries key wall).length := by
    unfold Store.size Store.liveEntries
    cases s.live? key wall with
    | none => rfl
    | some q => rfl
  rw [hsize, h.events_eq, List.length_map]

theorem trim (h : s.Shows r wall) (key : String) (count : Nat) :
    ((s.live? key wall).isSome → Store.Reply.number (s.trim key count).1 =
      ((r.asOf wall).modify key (Queue.newest count)).1) ∧
      (s.trim key count).2.Shows ((r.asOf wall).modify key (Queue.newest count)).2 wall :=
  h.modify (s.trim_shrinks key count wall) (Queue.newest count) _ (Queue.newest_map _ count)
    (fun k => s.queue?_trim key k count) fun _ hq => Store.trim_fst hq count

theorem expire (h : s.Shows r wall) (key : String) (retention : Duration) :
    ((s.live? key wall).isSome → Store.Reply.number (s.expire key retention wall).1 =
      ((r.asOf wall).modify key fun l =>
        l.filter fun (score, _) => cutoff wall retention ≤ score).1) ∧
      (s.expire key retention wall).2.Shows ((r.asOf wall).modify key fun l =>
        l.filter fun (score, _) => cutoff wall retention ≤ score).2 wall :=
  h.modify (h.sound.expire_shrinks key retention wall)
    (fun l => l.filter fun e => cutoff wall retention ≤ e.score) _
    (fun l => by rw [List.filter_map]; rfl) (fun k => s.queue?_expire key k retention wall)
    fun _ hq => Store.expire_fst hq retention wall

theorem purge (h : s.Shows r wall) : (s.purge wall).2.Shows (r.asOf wall) wall := by
  have hs := h.sound.purge_shrinks wall
  refine h.keep (h.sound.shrinks hs) (fun k e he => h.fits k e ((hs.suffix k).subset he))
    fun k => ?_
  rw [Store.live?, Store.queue?_purge h.sound.nodup, s.live?_live? (Int.le_refl wall)]

theorem clear (s : Store) (wall : Score) : s.clear.Shows {} wall where
  sound := Store.Sound.clear s
  fits _ _ he := nomatch he
  nodup := List.Pairwise.nil
  agree _ := rfl

theorem count_eq (h : s.Shows r wall) : s.liveCount wall = (r.asOf wall).queues.length := by
  have hkeys : ∀ {β : Type} (l : List (String × β)) (k : String),
      k ∈ l.map Prod.fst ↔ ((l.find? fun x => decide (x.1 = k)).map Prod.snd).isSome := by
    intro β l k
    simp only [Option.isSome_map, List.find?_isSome, List.mem_map, decide_eq_true_eq]
  -- The stores list their queues in different orders, so the counts are compared by the keys.
  have hperm : ((s.purge wall).2.queues.map Prod.fst).Perm ((r.asOf wall).queues.map Prod.fst) := by
    refine (List.perm_ext_iff_of_nodup ((h.sound.purge_shrinks wall).nodup h.sound.nodup)
      (EagerStore.nodup_asOf h.nodup)).2 fun k => ?_
    have hlive : ((s.purge wall).2.queue? k).map Queue.plain = (r.asOf wall).get? k := by
      rw [Store.queue?_purge h.sound.nodup, h.agree]
    rw [hkeys, hkeys]
    change ((s.purge wall).2.queue? k).isSome ↔ ((r.asOf wall).get? k).isSome
    rw [← hlive, Option.isSome_map]
  have hlen := hperm.length_eq
  rwa [List.length_map, List.length_map] at hlen

theorem call (h : s.Shows r wall) {c : Store.Call} (hc : c.Fits) :
    c.observed (fun key => (s.live? key wall).isSome) (s.call wall c).1 =
        c.observed (fun key => ((r.asOf wall).get? key).isSome) (r.call wall c).1 ∧
      (s.call wall c).2.Shows (r.call wall c).2 wall := by
  have hsame : s.Shows (r.asOf wall) wall := h.keep h.sound h.fits fun _ => rfl
  rw [← h.live_eq]
  cases c with
  | append key score event => exact ⟨rfl, h.append score event hc.1⟩
  | range key least greatest limit =>
    refine ⟨?_, hsame⟩
    simp only [Store.Call.observed, Store.call, EagerStore.call, h.range_eq]
  | trim key count =>
    obtain ⟨hreply, hshows⟩ := h.trim key count
    refine ⟨?_, hshows⟩
    simp only [Store.Call.observed, Store.call, EagerStore.call]
    split
    · next hlive => exact hreply hlive
    · rfl
  | find key id =>
    refine ⟨?_, hsame⟩
    simp only [Store.Call.observed, Store.call, EagerStore.call, h.find?_eq]
  | expire key retention =>
    obtain ⟨hreply, hshows⟩ := h.expire key retention
    refine ⟨?_, hshows⟩
    simp only [Store.Call.observed, Store.call, EagerStore.call]
    split
    · next hlive => exact hreply hlive
    · rfl
  | size key =>
    refine ⟨?_, hsame⟩
    simp only [Store.Call.observed, Store.call, EagerStore.call, h.size_eq]
  | count =>
    refine ⟨?_, hsame⟩
    simp only [Store.Call.observed, Store.call, EagerStore.call, h.count_eq]
  | purge => exact ⟨rfl, h.purge⟩
  | clear => exact ⟨rfl, clear s wall⟩

end Store.Shows

/-! ## Runs -/

theorem Queue.range_eq_nil {q : Queue} {least greatest : Score} {limit : Nat}
    (h : greatest < least ∨ limit = 0) : q.range least greatest limit = [] := by
  rw [range, List.map_eq_nil_iff, List.take_eq_nil_iff]
  rcases h with hlt | hzero
  · refine .inr (List.filter_eq_nil_iff.2 fun e _ => ?_)
    simp only [Bool.and_eq_true, decide_eq_true_eq]
    lia
  · exact .inl hzero

theorem Store.less?_of_le {n m : Nat} (h : m ≤ n) : Store.less? n m = some (n - m) := if_pos h

/-- **No call breaks down**: each does what the operation of the store does. -/
theorem Store.call?_eq (s : Store) (wall : Score) {c : Store.Call} (hc : c.Fits) :
    s.call? wall c = some (s.call wall c) := by
  cases c with
  | range key least greatest limit =>
    simp only [call?, call, range]
    split
    · next hb =>
      cases s.live? key wall with
      | none => rfl
      | some q =>
        dsimp only
        rw [Queue.range_eq_nil hb]
    · next hb =>
      cases s.live? key wall with
      | none => rfl
      | some q =>
        dsimp only
        rw [slice?, if_neg fun hlt => hb (.inl hlt), Option.map_some]
  | trim key keep =>
    simp only [Call.Fits] at hc
    simp only [call?, call, trim]
    cases s.queue? key with
    | none => rfl
    | some q =>
      dsimp only
      split
      · rfl
      · have hkeep : keep ≤ q.entries.length := by omega
        rw [less?_of_le hkeep, Option.map_some]
  | expire key retention =>
    simp only [call?, call, expire]
    cases s.queue? key with
    | none => rfl
    | some q =>
      dsimp only
      rw [less?_of_le (List.length_filter_le _ _), Option.map_some]
  | purge =>
    simp only [call?, call, purge]
    rw [less?_of_le (List.length_filter_le _ _), Option.map_some]
  | append | find | size | count | clear => rfl

theorem Store.Shows.answers?_eq {s : Store} {r : EagerStore} {wall : Score} (h : s.Shows r wall)
    {calls : List (Score × Store.Call)} (hfit : ∀ x ∈ calls, x.2.Fits)
    (hsorted : (calls.map Prod.fst).Pairwise (· ≤ ·)) (hwall : ∀ x ∈ calls, wall ≤ x.1) :
    s.answers? calls = some (r.answers calls) := by
  induction calls generalizing s r wall with
  | nil => rfl
  | cons x rest ih =>
    obtain ⟨w, c⟩ := x
    have hc : c.Fits := hfit (w, c) List.mem_cons_self
    have hrest := List.pairwise_cons.1 hsorted
    obtain ⟨hreply, hshows⟩ := (h.later (hwall (w, c) List.mem_cons_self)).call hc
    have hih := ih hshows (fun y hy => hfit y (List.mem_cons_of_mem _ hy)) hrest.2
      fun y hy => hrest.1 y.1 (List.mem_map_of_mem hy)
    simp only [Store.answers?, Store.call?_eq s w hc, hih, Option.map_some, hreply,
      EagerStore.answers]

namespace EagerStore

variable {r : EagerStore} {wall w : Score} {calls : List (Score × Store.Call)}

theorem answers_asOf (hwall : ∀ x ∈ calls, wall ≤ x.1) :
    (r.asOf wall).answers calls = r.answers calls := by
  cases calls with
  | nil => rfl
  | cons x rest =>
    obtain ⟨w, c⟩ := x
    have hw := hwall (w, c) List.mem_cons_self
    have hcall : (r.asOf wall).call w c = r.call w c := by
      simp only [call, asOf_asOf hw]
    simp only [answers, hcall, asOf_asOf hw]

theorem answers_filter (hsorted : (calls.map Prod.fst).Pairwise (· ≤ ·)) :
    r.answers (calls.filter fun x => ! x.2.isPurge) = r.answers calls := by
  induction calls generalizing r with
  | nil => rfl
  | cons x rest ih =>
    obtain ⟨w, c⟩ := x
    obtain ⟨hw, hrest⟩ := List.pairwise_cons.1 hsorted
    cases hp : c.isPurge with
    | true =>
      have hc : c = .purge := by
        cases c <;> first | rfl | cases hp
      subst hc
      have hafter : (r.asOf w).answers rest = r.answers rest :=
        answers_asOf fun y hy => hw y.1 (List.mem_map_of_mem hy)
      rw [List.filter_cons_of_neg (by simp [hp]), ih hrest, ← hafter]
      rfl
    | false =>
      rw [List.filter_cons_of_pos (by simp [hp])]
      simp only [answers, ih hrest, hp]

end EagerStore

namespace Store

/-- **A store that hides expired queues behaves like one that drops them at once.** For all calls at
rising readings of the wall clock no call breaks down, and callers see what the eager store gives.
They see the same again with purges put in, or left out, anywhere. -/
theorem answers?_eq_eager {calls : List (Score × Call)} (hfit : ∀ x ∈ calls, x.2.Fits)
    (hsorted : (calls.map Prod.fst).Pairwise (· ≤ ·)) :
    answers? {} calls = some (EagerStore.answers {} calls) ∧
      ∀ calls' : List (Score × Call), (calls'.map Prod.fst).Pairwise (· ≤ ·) →
        (calls'.filter fun x => ! x.2.isPurge) = (calls.filter fun x => ! x.2.isPurge) →
        answers? {} calls' = answers? {} calls := by
  have hrun : ∀ l : List (Score × Call), (∀ x ∈ l, x.2.Fits) →
      (l.map Prod.fst).Pairwise (· ≤ ·) → answers? {} l = some (EagerStore.answers {} l) := by
    intro l hl hs
    cases l with
    | nil => rfl
    | cons x rest =>
      refine (Shows.empty x.1).answers?_eq hl hs fun y hy => ?_
      rcases List.mem_cons.1 hy with rfl | hy
      · exact Int.le_refl _
      · exact (List.pairwise_cons.1 hs).1 y.1 (List.mem_map_of_mem hy)
  refine ⟨hrun calls hfit hsorted, fun calls' hsorted' hsame => ?_⟩
  have hfit' : ∀ x ∈ calls', x.2.Fits := by
    intro x hx
    cases hp : x.2.isPurge with
    | true => cases hc : x.2 <;> first | trivial | (rw [hc] at hp; cases hp)
    | false =>
      have hmem : x ∈ calls'.filter fun x => ! x.2.isPurge := List.mem_filter.2 ⟨hx, by simp [hp]⟩
      rw [hsame] at hmem
      exact hfit x (List.mem_filter.1 hmem).1
  rw [hrun calls' hfit' hsorted', hrun calls hfit hsorted, ← EagerStore.answers_filter hsorted',
    hsame, EagerStore.answers_filter hsorted]

/-- Two entries at the ends of the scores, in a queue that expires after a second: hidden, it is
still trimmed, but nobody sees that. -/
theorem answers?_expired_queue :
    let first : Event := { (default : Event) with ttl := 1 }
    let second : Event := { (default : Event) with entityId := "second", ttl := 1 }
    let calls : List (Score × Call) :=
      [(0, .append "k" Score.greatest first), (0, .append "k" Score.least second),
        (1, .range "k" none Score.greatest 5), (2, .range "k" (some 1) 0 5),
        (1000000, .trim "k" 0), (1000000, .count)]
    (∀ x ∈ calls, x.2.Fits) ∧ (calls.map Prod.fst).Pairwise (· ≤ ·) ∧
      answers? {} calls =
        some [.nothing, .nothing, .events [second, first], .events [], .nothing, .number 0] ∧
      answers? {} (calls ++ [(1000000, .purge)]) = answers? {} calls := by
  intro first second calls
  have hfit : ∀ x ∈ calls, x.2.Fits := by decide
  have hsorted : (calls.map Prod.fst).Pairwise (· ≤ ·) := by decide
  obtain ⟨hsame, hpurged⟩ := answers?_eq_eager hfit hsorted
  refine ⟨hfit, hsorted, hsame.trans ?_, ?_⟩
  · have hlatest : Instant.latest = 8210266876799999999999 := by decide
    simp [calls, first, second, hlatest, EagerStore.answers, EagerStore.call, EagerStore.asOf,
      EagerStore.set, EagerStore.get?, EagerStore.events, EagerStore.insert, EagerStore.modify,
      Call.observed, Call.isPurge, Instant.ofScore, Instant.plusSeconds, Instant.maxSpan,
      Score.greatest, Score.least, Text.maxSigned64]
  · exact hpurged _ (by decide) rfl

end Store

end NotificationQueue
