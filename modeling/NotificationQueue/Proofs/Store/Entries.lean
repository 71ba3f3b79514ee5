import NotificationQueue.Proofs.Store.Order

/-!
What each call of the store does to the entries of every key. An append adds one entry to what is
live under its key; trimming, expiring and purging leave the end of each queue, and never bring back
anything that was hidden.
-/
namespace NotificationQueue
set_option autoImplicit false

/-! ## Queues by key -/

namespace Store

theorem find?_put (key k : String) (q : Queue) (l : List (String × Queue)) :
    (put key q l).find? (·.1 = k) = if k = key then some (key, q) else l.find? (·.1 = k) := by
  induction l with
  | nil =>
    by_cases h : k = key
    · simp [put, h]
    · simp [put, h, Ne.symm h]
  | cons p rest ih =>
    obtain ⟨a, r⟩ := p
    by_cases ha : a = key
    · subst ha
      by_cases h : k = a
      · simp [put, h]
      · simp [put, h, Ne.symm h]
    · by_cases h : a = k
      · subst h
        simp [put, ha]
      · simp [put, ha, h, ih]

theorem map_fst_put (key : String) (q : Queue) (l : List (String × Queue)) :
    (put key q l).map Prod.fst =
      if key ∈ l.map Prod.fst then l.map Prod.fst else l.map Prod.fst ++ [key] := by
  induction l with
  | nil => simp [put]
  | cons p rest ih =>
    obtain ⟨a, r⟩ := p
    by_cases ha : a = key
    · simp [put, ha]
    · simp only [put, ha, if_false, List.map_cons, ih, List.mem_cons, Ne.symm ha, false_or]
      split <;> rfl

theorem nodup_put {key : String} {q : Queue} {l : List (String × Queue)}
    (h : (l.map Prod.fst).Nodup) : ((put key q l).map Prod.fst).Nodup := by
  rw [map_fst_put]
  split
  · exact h
  · next hk =>
    rw [List.nodup_append]
    refine ⟨h, by simp, fun a ha b hb => ?_⟩
    rintro rfl
    rw [List.mem_singleton] at hb
    exact hk (hb ▸ ha)

theorem queue?_setQueue (s : Store) (key k : String) (q : Queue) :
    (s.setQueue key q).queue? k = if k = key then some q else s.queue? k := by
  simp only [queue?, setQueue, find?_put]
  split <;> rfl

theorem find?_filter {β : Type} {l : List (String × β)} (p : String × β → Bool) (k : String)
    (h : (l.map Prod.fst).Nodup) :
    (l.filter p).find? (·.1 = k) = (l.find? (·.1 = k)).filter p := by
  induction l with
  | nil => rfl
  | cons x rest ih =>
    rw [List.map_cons, List.nodup_cons] at h
    by_cases hx : x.1 = k
    · have hrest : rest.find? (fun y => decide (y.1 = k)) = none := by
        refine List.find?_eq_none.2 fun y hy hyk => ?_
        have : y.1 = k := by simpa using hyk
        exact h.1 (hx ▸ this ▸ List.mem_map_of_mem hy)
      by_cases hp : p x = true
      · rw [List.filter_cons_of_pos hp, List.find?_cons_of_pos (by simpa using hx),
          List.find?_cons_of_pos (by simpa using hx), Option.filter_some_pos hp]
      · rw [List.filter_cons_of_neg hp, ih h.2, hrest, List.find?_cons_of_pos (by simpa using hx),
          Option.filter_some_neg (by simpa using hp)]
        rfl
    · by_cases hp : p x = true
      · rw [List.filter_cons_of_pos hp, List.find?_cons_of_neg (by simpa using hx),
          List.find?_cons_of_neg (by simpa using hx), ih h.2]
      · rw [List.filter_cons_of_neg hp, List.find?_cons_of_neg (by simpa using hx), ih h.2]

/-! ## Entries by key -/

/-- The entries of a key, hidden or not. -/
def entries (s : Store) (key : String) : List Entry :=
  match s.queue? key with
  | none => []
  | some q => q.entries

def liveEntries (s : Store) (key : String) (wall : Score) : List Entry :=
  match s.live? key wall with
  | none => []
  | some q => q.entries

theorem range_eq (s : Store) (key : String) (least : Option Score) (greatest : Score)
    (limit : Nat) (wall : Score) :
    s.range key least greatest limit wall =
      (((s.liveEntries key wall).filter fun e =>
        least.getD Score.least ≤ e.score && e.score ≤ greatest).take limit).map Entry.event := by
  unfold range liveEntries
  cases s.live? key wall with
  | none => simp
  | some q => rfl

theorem find?_eq (s : Store) (key : String) (id : Uuid) (wall : Score) :
    s.find? key id wall =
      ((s.liveEntries key wall).find? fun e => e.event.id = id).map Entry.event := by
  unfold find? liveEntries
  cases s.live? key wall with
  | none => rfl
  | some q => rfl

theorem live?_eq_some {s : Store} {key : String} {wall : Score} {q : Queue} :
    s.live? key wall = some q ↔
      s.queue? key = some q ∧ q.isExpired (Instant.ofScore wall) = false := by
  simp [live?, Option.filter_eq_some_iff]

theorem liveEntries_eq (s : Store) (key : String) (wall : Score) :
    s.liveEntries key wall = s.entries key ∨ s.liveEntries key wall = [] := by
  unfold liveEntries entries
  cases h : s.live? key wall with
  | none => exact .inr rfl
  | some q => rw [(live?_eq_some.1 h).1]; exact .inl rfl

theorem liveEntries_suffix (s : Store) (key : String) (wall : Score) :
    s.liveEntries key wall <:+ s.entries key := by
  rcases s.liveEntries_eq key wall with h | h
  · exact ⟨[], h⟩
  · rw [h]
    exact List.nil_suffix

end Store

theorem Queue.isExpired_mono {q : Queue} {a b : Score} (h : a ≤ b)
    (hq : q.isExpired (Instant.ofScore a) = true) : q.isExpired (Instant.ofScore b) = true := by
  simp only [Queue.isExpired, Instant.ofScore] at *
  lia

namespace Store

theorem live?_live? (s : Store) {key : String} {a b : Score} (h : a ≤ b) :
    ((s.live? key a).filter fun q => ! q.isExpired (Instant.ofScore b)) = s.live? key b := by
  unfold live?
  rw [Option.filter_filter]
  congr 1
  funext q
  cases hq : q.isExpired (Instant.ofScore a) with
  | true => simp [Queue.isExpired_mono h hq]
  | false => simp

theorem liveEntries_mono (s : Store) (key : String) {a b : Score} (h : a ≤ b) :
    s.liveEntries key b <:+ s.liveEntries key a := by
  unfold liveEntries
  cases hb : s.live? key b with
  | none => exact List.nil_suffix
  | some q =>
    obtain ⟨hq, hlive⟩ := live?_eq_some.1 hb
    have ha : s.live? key a = some q := by
      refine live?_eq_some.2 ⟨hq, ?_⟩
      cases he : q.isExpired (Instant.ofScore a) with
      | false => rfl
      | true => rw [Queue.isExpired_mono h he] at hlive; cases hlive
    exact ⟨[], by simp only [ha, List.nil_append]⟩

/-! ## Appends -/

theorem queue?_append (s : Store) (key k : String) (score : Score) (event : Event) (wall : Score) :
    (s.append key score event wall).queue? k =
      if k = key then
        some ⟨Queue.insertEntry ⟨score, s.nextSequence, event⟩ (s.liveEntries key wall),
          (Instant.ofScore wall).plusSeconds event.ttl⟩
      else s.queue? k := by
  have hold : (match s.queue? key with
      | none => []
      | some q => if q.isExpired (Instant.ofScore wall) then [] else q.entries) =
      s.liveEntries key wall := by
    unfold liveEntries live?
    cases s.queue? key with
    | none => rfl
    | some q => cases h : q.isExpired (Instant.ofScore wall) <;> simp [Option.filter, h]
  rw [← hold]
  exact queue?_setQueue s key k _

@[simp] theorem nextSequence_append (s : Store) (key : String) (score : Score) (event : Event)
    (wall : Score) : (s.append key score event wall).nextSequence = s.nextSequence + 1 := rfl

theorem entries_append (s : Store) (key k : String) (score : Score) (event : Event)
    (wall : Score) :
    (s.append key score event wall).entries k =
      if k = key then Queue.insertEntry ⟨score, s.nextSequence, event⟩ (s.liveEntries key wall)
      else s.entries k := by
  simp only [entries, queue?_append]
  by_cases h : k = key <;> simp [h]

theorem mem_liveEntries_append {s : Store} {key k : String} {score : Score} {event : Event}
    {wall w : Score} {e : Entry} (hw : wall ≤ w)
    (he : e ∈ (s.append key score event wall).liveEntries k w) :
    (k = key ∧ e = ⟨score, s.nextSequence, event⟩) ∨ e ∈ s.liveEntries k wall := by
  by_cases h : k = key
  · subst h
    have hmem := (liveEntries_suffix _ _ _).subset he
    rw [entries_append, if_pos rfl, Queue.mem_insertEntry] at hmem
    exact hmem.imp_left fun h => ⟨rfl, h⟩
  · have hsame : (s.append key score event wall).liveEntries k w = s.liveEntries k w := by
      simp only [liveEntries, live?, queue?_append, if_neg h]
    rw [hsame] at he
    exact .inr ((s.liveEntries_mono k hw).subset he)

/-! ## Calls that remove entries -/

/-- A store has lost entries at a reading of the wall clock: of each queue the end is left, and of
what can be read from then on as well. -/
structure Shrinks (s t : Store) (wall : Score) : Prop where
  nextSequence : t.nextSequence = s.nextSequence
  nodup : (s.queues.map Prod.fst).Nodup → (t.queues.map Prod.fst).Nodup
  suffix : ∀ k, t.entries k <:+ s.entries k
  live : ∀ k w, wall ≤ w → t.liveEntries k w <:+ s.liveEntries k w

theorem shrinks_of_map {s t : Store} {wall : Score} (f : String → Queue → Queue)
    (hn : t.nextSequence = s.nextSequence)
    (hnodup : (s.queues.map Prod.fst).Nodup → (t.queues.map Prod.fst).Nodup)
    (hq : ∀ k, t.queue? k = (s.queue? k).map (f k))
    (hd : ∀ k q, (f k q).deadline = q.deadline)
    (hs : ∀ k q, s.queue? k = some q → (f k q).entries <:+ q.entries) : s.Shrinks t wall where
  nextSequence := hn
  nodup := hnodup
  suffix k := by
    simp only [entries, hq]
    cases h : s.queue? k with
    | none => exact List.suffix_refl []
    | some q => exact hs k q h
  live k w _ := by
    simp only [liveEntries, live?, hq]
    cases h : s.queue? k with
    | none => exact List.suffix_refl []
    | some q =>
      have hexp : (f k q).isExpired (Instant.ofScore w) = q.isExpired (Instant.ofScore w) := by
        simp only [Queue.isExpired, hd]
      cases hx : q.isExpired (Instant.ofScore w) with
      | true => simp [Option.filter, hexp, hx]
      | false => simpa [Option.filter, hexp, hx] using hs k q h

end Store

def Queue.trimmed (q : Queue) (keep : Nat) : Queue :=
  { q with entries := newest keep q.entries }

def Queue.sweptBelow (q : Queue) (least : Score) : Queue :=
  { q with entries := q.entries.filter fun e => least ≤ e.score }

namespace Store

theorem queue?_trim (s : Store) (key k : String) (keep : Nat) :
    (s.trim key keep).2.queue? k =
      (s.queue? k).map fun q => if k = key then q.trimmed keep else q := by
  unfold trim
  cases hq : s.queue? key with
  | none =>
    by_cases h : k = key
    · simp [h, hq]
    · simp [h]
  | some q =>
    dsimp only
    by_cases hlen : q.entries.length ≤ min (2 * keep) Text.maxWord64
    · have htrimmed : q.trimmed keep = q := by rw [Queue.trimmed, Queue.newest, if_pos hlen]
      rw [if_pos hlen]
      by_cases h : k = key
      · simp [h, hq, htrimmed]
      · simp [h]
    · have htrimmed : q.trimmed keep =
          { q with entries := q.entries.drop (q.entries.length - keep) } := by
        rw [Queue.trimmed, Queue.newest, if_neg hlen]
      rw [if_neg hlen, queue?_setQueue]
      by_cases h : k = key
      · simp [h, hq, htrimmed]
      · simp [h]

theorem trim_fst {s : Store} {key : String} {q : Queue} (h : s.queue? key = some q) (keep : Nat) :
    (s.trim key keep).1 = q.entries.length - (q.trimmed keep).entries.length := by
  simp only [trim, h, Queue.trimmed, Queue.newest]
  split
  · exact (Nat.sub_self _).symm
  · rw [List.length_drop]
    omega

theorem queue?_expire (s : Store) (key k : String) (retention : Duration) (wall : Score) :
    (s.expire key retention wall).2.queue? k =
      (s.queue? k).map fun q => if k = key then q.sweptBelow (cutoff wall retention) else q := by
  unfold expire
  cases hq : s.queue? key with
  | none =>
    by_cases h : k = key
    · simp [h, hq]
    · simp [h]
  | some q =>
    by_cases h : k = key
    · simp [h, hq, queue?_setQueue, Queue.sweptBelow]
    · simp [h, queue?_setQueue]

theorem expire_fst {s : Store} {key : String} {q : Queue} (h : s.queue? key = some q)
    (retention : Duration) (wall : Score) :
    (s.expire key retention wall).1 =
      q.entries.length - (q.sweptBelow (cutoff wall retention)).entries.length := by
  simp only [expire, h, Queue.sweptBelow]

theorem queue?_purge {s : Store} (h : (s.queues.map Prod.fst).Nodup) (k : String) (wall : Score) :
    (s.purge wall).2.queue? k = s.live? k wall := by
  simp only [purge, queue?, live?]
  rw [find?_filter _ k h]
  cases s.queues.find? fun x => decide (x.1 = k) with
  | none => rfl
  | some x => cases hx : x.2.isExpired (Instant.ofScore wall) <;> simp [Option.filter, hx]

theorem liveEntries_purge {s : Store} (h : (s.queues.map Prod.fst).Nodup) (k : String)
    {wall w : Score} (hw : wall ≤ w) : (s.purge wall).2.liveEntries k w = s.liveEntries k w := by
  have hlive : (s.purge wall).2.live? k w = s.live? k w := by
    rw [live?, queue?_purge h, s.live?_live? hw]
  simp only [liveEntries, hlive]

/-! ## Soundness -/

/-- What holds of every store that has only been called: each key has one queue, which is in order,
and the numbers of insertions have not run ahead. -/
structure Sound (s : Store) : Prop where
  nodup : (s.queues.map Prod.fst).Nodup
  sorted : ∀ k, (s.entries k).Pairwise Entry.Precedes
  numbered : ∀ k, ∀ e ∈ s.entries k, e.sequence < s.nextSequence

theorem sound_empty : Sound {} where
  nodup := List.Pairwise.nil
  sorted _ := List.Pairwise.nil
  numbered _ _ he := nomatch he

variable {s t : Store}

theorem Sound.liveEntries_sorted (h : s.Sound) (k : String) (wall : Score) :
    (s.liveEntries k wall).Pairwise Entry.Precedes :=
  (h.sorted k).sublist (s.liveEntries_suffix k wall).sublist

theorem Sound.append (h : s.Sound) (key : String) (score : Score) (event : Event)
    (wall : Score) : (s.append key score event wall).Sound where
  nodup := nodup_put h.nodup
  sorted k := by
    rw [entries_append]
    split
    · refine Queue.insertEntry_sorted (h.liveEntries_sorted key wall) fun a ha => ?_
      exact h.numbered key a ((s.liveEntries_suffix key wall).subset ha)
    · exact h.sorted k
  numbered k e he := by
    rw [nextSequence_append]
    rw [entries_append] at he
    split at he
    · rcases Queue.mem_insertEntry.1 he with rfl | he
      · exact Nat.lt_succ_self _
      · exact Nat.lt_succ_of_lt (h.numbered key e ((s.liveEntries_suffix key wall).subset he))
    · exact Nat.lt_succ_of_lt (h.numbered k e he)

theorem Sound.shrinks {wall : Score} (h : s.Sound) (hs : s.Shrinks t wall) : t.Sound where
  nodup := hs.nodup h.nodup
  sorted k := (h.sorted k).sublist (hs.suffix k).sublist
  numbered k e he := hs.nextSequence ▸ h.numbered k e ((hs.suffix k).subset he)

theorem Shrinks.refl (s : Store) (wall : Score) : s.Shrinks s wall where
  nextSequence := rfl
  nodup := id
  suffix _ := List.suffix_refl _
  live _ _ _ := List.suffix_refl _

theorem nodup_setQueue {key : String} {q : Queue} (h : (s.queues.map Prod.fst).Nodup) :
    ((s.setQueue key q).queues.map Prod.fst).Nodup :=
  nodup_put h

theorem trim_shrinks (s : Store) (key : String) (keep : Nat) (wall : Score) :
    s.Shrinks (s.trim key keep).2 wall := by
  refine shrinks_of_map (fun k q => if k = key then q.trimmed keep else q) ?_ ?_
    (fun k => queue?_trim s key k keep) (fun k q => ?_) fun k q _ => ?_
  · unfold trim
    cases s.queue? key with
    | none => rfl
    | some q => dsimp only; split <;> rfl
  · intro h
    unfold trim
    cases s.queue? key with
    | none => exact h
    | some q =>
      dsimp only
      split
      · exact h
      · exact nodup_setQueue h
  · split <;> rfl
  · split
    · exact Queue.newest_suffix keep q.entries
    · exact List.suffix_refl _

theorem Sound.expire_shrinks (h : s.Sound) (key : String) (retention : Duration) (wall : Score) :
    s.Shrinks (s.expire key retention wall).2 wall := by
  refine shrinks_of_map (fun k q => if k = key then q.sweptBelow (cutoff wall retention) else q)
    ?_ ?_ (fun k => queue?_expire s key k retention wall) (fun k q => ?_) fun k q hq => ?_
  · unfold expire
    cases s.queue? key with
    | none => rfl
    | some q => rfl
  · intro hn
    unfold expire
    cases s.queue? key with
    | none => exact hn
    | some q => exact nodup_setQueue hn
  · split <;> rfl
  · split
    · have hsorted := h.sorted k
      rw [entries, hq] at hsorted
      exact Queue.filter_suffix (hsorted.imp Entry.Precedes.score_le) _
    · exact List.suffix_refl _

theorem Sound.purge_shrinks (h : s.Sound) (wall : Score) : s.Shrinks (s.purge wall).2 wall where
  nextSequence := rfl
  nodup hn := hn.sublist (List.filter_sublist.map Prod.fst)
  suffix k := by
    have hlive := liveEntries_suffix s k wall
    rw [liveEntries, ← queue?_purge h.nodup] at hlive
    exact hlive
  live k w hw := by
    have hsame := liveEntries_purge h.nodup k hw
    exact ⟨[], hsame⟩

theorem Sound.clear (s : Store) : s.clear.Sound where
  nodup := List.Pairwise.nil
  sorted _ := List.Pairwise.nil
  numbered _ _ he := nomatch he

end Store

end NotificationQueue
