import NotificationQueue.Proofs.Store.Eager
import Mathlib.Data.List.Perm.Subperm

/-!
What a queue keeps that is trimmed to its newest entries. Appends land in any order, and each may be
followed by a trim or not: the queue always holds the highest entries that were ever appended to it,
as many as trims keep, and it is longer than a trim leaves it only by the appends that have come
since.
-/
namespace NotificationQueue
set_option autoImplicit false

/-! ## One trim -/

def Queue.most (keep : Nat) : Nat := max keep (min (2 * keep) Text.maxWord64)

namespace Queue

theorem most_le (keep : Nat) : most keep ≤ 2 * keep := by
  unfold most
  omega

theorem most_eq {keep : Nat} (h : keep ≤ Text.maxWord64) :
    most keep = min (2 * keep) Text.maxWord64 := by
  unfold most
  omega

theorem length_newest_le {α : Type} (keep : Nat) (l : List α) :
    (newest keep l).length ≤ most keep := by
  unfold newest most
  split
  · omega
  · rw [List.length_drop]
    omega

theorem le_countP_of_not_mem_newest {keep : Nat} {l : List Entry} {e : Entry}
    (hl : l.Pairwise Entry.Precedes) (he : e ∈ l) (hdropped : e ∉ newest keep l) :
    keep ≤ l.countP fun x => e.Precedes x := by
  unfold newest at hdropped
  split at hdropped
  · exact absurd he hdropped
  · have hsplit : l.take (l.length - keep) ++ l.drop (l.length - keep) = l :=
      List.take_append_drop _ l
    have hfront : e ∈ l.take (l.length - keep) := by
      rw [← hsplit] at he
      exact (List.mem_append.1 he).resolve_right hdropped
    have hkeep : keep ≤ l.length := by
      have hpos : 0 < (l.take (l.length - keep)).length := List.length_pos_of_mem hfront
      rw [List.length_take] at hpos
      omega
    have habove : ∀ x ∈ l.drop (l.length - keep), e.Precedes x := by
      have hsorted := hl
      rw [← hsplit] at hsorted
      exact (List.pairwise_append.1 hsorted).2.2 e hfront
    have hall : (l.drop (l.length - keep)).countP (fun x => e.Precedes x) = keep := by
      rw [List.countP_eq_length.2 fun x hx => decide_eq_true (habove x hx), List.length_drop]
      omega
    have hle := (List.drop_sublist (l.length - keep) l).countP_le
      (p := fun x => decide (e.Precedes x))
    omega

end Queue

namespace Store

/-! ## Calls and what they do to one queue -/

def Call.appends (key : String) : Call → Bool
  | .append k _ _ => k = key
  | _ => false

def Call.trims (key : String) : Call → Bool
  | .trim k _ => k = key
  | _ => false

/-- A call takes entries out of the queue of a key otherwise than by trimming it. -/
def Call.sweeps (key : String) : Call → Bool
  | .expire k _ => k = key
  | .clear => true
  | _ => false

def after (s : Store) : List (Score × Call) → Store
  | [] => s
  | (wall, c) :: calls => (s.call wall c).2.after calls

def landed (s : Store) (key : String) : List (Score × Call) → List Entry
  | [] => []
  | (wall, c) :: calls =>
    match c with
    | .append k score event =>
      (if k = key then [⟨score, s.nextSequence, event⟩] else []) ++
        (s.call wall c).2.landed key calls
    | _ => (s.call wall c).2.landed key calls

/-- How many appends to the queue of a key no trim of it has followed. -/
def untrimmed (key : String) : List (Score × Call) → Nat
  | [] => 0
  | (_, c) :: calls =>
    (if c.appends key && ! calls.any (·.2.trims key) then 1 else 0) + untrimmed key calls

def isLive (s : Store) (key : String) (wall : Score) : Bool :=
  (s.queue? key).all fun q => ! q.isExpired (Instant.ofScore wall)

/-- Nothing but trims takes entries out of the queue of a key: it is live at every call, and none
sweeps it. -/
def undisturbed (s : Store) (key : String) : List (Score × Call) → Bool
  | [] => true
  | (wall, c) :: calls =>
    s.isLive key wall && ! c.sweeps key && (s.call wall c).2.undisturbed key calls

def TrimsTo (key : String) (keep : Nat) (calls : List (Score × Call)) : Prop :=
  ∀ x ∈ calls, ∀ n, x.2 = .trim key n → n = keep

variable {s : Store} {key : String} {keep : Nat} {wall : Score} {c : Call}
  {calls : List (Score × Call)} {all : List Entry}

theorem after_append (s : Store) (calls more : List (Score × Call)) :
    s.after (calls ++ more) = (s.after calls).after more := by
  induction calls generalizing s with
  | nil => rfl
  | cons x calls ih => exact ih (s.call x.1 x.2).2

theorem Sound.call (h : s.Sound) (wall : Score) (c : Call) : (s.call wall c).2.Sound := by
  cases c with
  | append k score event => exact h.append k score event wall
  | trim k n => exact h.shrinks (s.trim_shrinks k n wall)
  | expire k retention => exact h.shrinks (h.expire_shrinks k retention wall)
  | purge => exact h.shrinks (h.purge_shrinks wall)
  | clear => exact Sound.clear s
  | range | find | size | count => exact h

theorem Sound.after (h : s.Sound) (calls : List (Score × Call)) : (s.after calls).Sound := by
  induction calls generalizing s with
  | nil => exact h
  | cons x calls ih => exact ih (h.call x.1 x.2)

theorem liveEntries_of_isLive (h : s.isLive key wall = true) :
    s.liveEntries key wall = s.entries key := by
  cases hq : s.queue? key with
  | none => simp [liveEntries, live?, entries, hq]
  | some q =>
    have hopen : q.isExpired (Instant.ofScore wall) = false := by simpa [isLive, hq] using h
    have hlive : s.live? key wall = some q := live?_eq_some.2 ⟨hq, hopen⟩
    simp only [liveEntries, entries, hlive, hq]

theorem entries_trim (s : Store) (key k : String) (keep : Nat) :
    (s.trim key keep).2.entries k =
      if k = key then Queue.newest keep (s.entries k) else s.entries k := by
  simp only [entries, queue?_trim]
  cases s.queue? k with
  | none => by_cases h : k = key <;> simp [h, Queue.newest]
  | some q => by_cases h : k = key <;> simp [h, Queue.trimmed]

/-- **What a call does to the queue of a key**: it puts a new entry in, trims it, or leaves an end
of it; and it leaves the queue as it is if nothing disturbs it. -/
theorem entries_call (h : s.Sound) (wall : Score) (c : Call) (key : String) :
    (∃ score event, c = .append key score event ∧ (s.call wall c).2.entries key =
      Queue.insertEntry ⟨score, s.nextSequence, event⟩ (s.liveEntries key wall)) ∨
    (∃ n, c = .trim key n ∧ (s.call wall c).2.entries key = Queue.newest n (s.entries key)) ∨
    (c.appends key = false ∧ c.trims key = false ∧
      (s.call wall c).2.entries key <:+ s.entries key ∧
      (c.sweeps key = false → s.liveEntries key wall = s.entries key →
        (s.call wall c).2.entries key = s.entries key)) := by
  cases c with
  | append k score event =>
    have hentries := s.entries_append k key score event wall
    by_cases hk : key = k
    · subst hk
      rw [if_pos rfl] at hentries
      exact .inl ⟨score, event, rfl, hentries⟩
    · rw [if_neg hk] at hentries
      have hsame : (s.call wall (.append k score event)).2.entries key = s.entries key := hentries
      exact .inr (.inr ⟨by simp [Call.appends, Ne.symm hk], rfl, ⟨[], hsame⟩, fun _ _ => hsame⟩)
  | trim k n =>
    have hentries := s.entries_trim k key n
    by_cases hk : key = k
    · subst hk
      rw [if_pos rfl] at hentries
      exact .inr (.inl ⟨n, rfl, hentries⟩)
    · rw [if_neg hk] at hentries
      have hsame : (s.call wall (.trim k n)).2.entries key = s.entries key := hentries
      exact .inr (.inr ⟨rfl, by simp [Call.trims, Ne.symm hk], ⟨[], hsame⟩, fun _ _ => hsame⟩)
  | expire k retention =>
    refine .inr (.inr ⟨rfl, rfl, (h.expire_shrinks k retention wall).suffix key, fun hk _ => ?_⟩)
    have hne : key ≠ k := by simpa [Call.sweeps, eq_comm] using hk
    show (s.expire k retention wall).2.entries key = s.entries key
    simp [entries, queue?_expire, hne]
  | purge =>
    refine .inr (.inr ⟨rfl, rfl, (h.purge_shrinks wall).suffix key, fun _ hlive => ?_⟩)
    rw [← hlive]
    show (s.purge wall).2.entries key = s.liveEntries key wall
    simp only [entries, queue?_purge h.nodup, liveEntries]
  | clear => exact .inr (.inr ⟨rfl, rfl, List.nil_suffix, fun hsweeps => Bool.noConfusion hsweeps⟩)
  | range | find | size | count =>
    exact .inr (.inr ⟨rfl, rfl, List.suffix_refl _, fun _ _ => rfl⟩)

/-! ## The highest entries -/

/-- Of all entries ever appended to a queue, it holds the highest, as many as trims keep. -/
structure Retains (s : Store) (key : String) (keep : Nat) (all : List Entry) : Prop where
  sound : s.Sound
  appended : ∀ e ∈ s.entries key, e ∈ all
  highest : ∀ e ∈ all, all.countP (fun x => e.Precedes x) < keep → e ∈ s.entries key

theorem Retains.append (h : s.Retains key keep all) (hlive : s.liveEntries key wall = s.entries key)
    {score : Score} {event : Event} :
    (s.append key score event wall).Retains key keep
      (all ++ [⟨score, s.nextSequence, event⟩]) where
  sound := h.sound.append key score event wall
  appended e he := by
    rw [entries_append, if_pos rfl, hlive] at he
    rcases Queue.mem_insertEntry.1 he with rfl | he
    · exact List.mem_append_right _ (List.mem_singleton_self _)
    · exact List.mem_append_left _ (h.appended e he)
  highest e he hfew := by
    rw [entries_append, if_pos rfl, hlive]
    rcases List.mem_append.1 he with he | he
    · have hle : all.countP (fun x => e.Precedes x) ≤
          (all ++ [(⟨score, s.nextSequence, event⟩ : Entry)]).countP fun x => e.Precedes x :=
        (List.sublist_append_left all _).countP_le
      exact Queue.mem_insertEntry.2 (.inr (h.highest e he (by omega)))
    · exact Queue.mem_insertEntry.2 (.inl (List.mem_singleton.1 he))

theorem Retains.trim (h : s.Retains key keep all) : (s.trim key keep).2.Retains key keep all where
  sound := h.sound.shrinks (s.trim_shrinks key keep 0)
  appended e he := by
    rw [entries_trim, if_pos rfl] at he
    exact h.appended e ((Queue.newest_suffix keep _).subset he)
  highest e he hfew := by
    rw [entries_trim, if_pos rfl]
    by_contra hdropped
    have hsorted := h.sound.sorted key
    have hstored := h.highest e he hfew
    have hmany := Queue.le_countP_of_not_mem_newest hsorted hstored hdropped
    have hdistinct : (s.entries key).Nodup := by
      refine hsorted.imp fun hab heq => ?_
      subst heq
      unfold Entry.Precedes at hab
      lia
    have hsub := List.subperm_of_subset hdistinct h.appended
    have hle := hsub.countP_le fun x => decide (e.Precedes x)
    omega

theorem Retains.call (h : s.Retains key keep all) (hlive : s.liveEntries key wall = s.entries key)
    (hsweeps : c.sweeps key = false) (hkeep : ∀ n, c = .trim key n → n = keep) :
    (s.call wall c).2.Retains key keep (all ++ s.landed key [(wall, c)]) := by
  rcases entries_call h.sound wall c key with
    ⟨score, event, rfl, -⟩ | ⟨n, rfl, -⟩ | ⟨happends, -, -, hsame⟩
  · have hlanded : s.landed key [(wall, .append key score event)] =
        [⟨score, s.nextSequence, event⟩] := by simp [landed]
    rw [hlanded]
    exact h.append hlive
  · obtain rfl := hkeep n rfl
    have hlanded : s.landed key [(wall, .trim key n)] = [] := rfl
    rw [hlanded, List.append_nil]
    exact h.trim
  · have hlanded : s.landed key [(wall, c)] = [] := by
      cases c with
      | append k score event => simpa [landed, Call.appends] using happends
      | _ => rfl
    have hentries := hsame hsweeps hlive
    rw [hlanded, List.append_nil]
    refine ⟨h.sound.call wall c, fun e he => ?_, fun e he hfew => ?_⟩
    · rw [hentries] at he
      exact h.appended e he
    · rw [hentries]
      exact h.highest e he hfew

theorem landed_cons (s : Store) (key : String) (wall : Score) (c : Call)
    (calls : List (Score × Call)) :
    s.landed key ((wall, c) :: calls) =
      s.landed key [(wall, c)] ++ (s.call wall c).2.landed key calls := by
  cases c <;> simp [landed]

theorem Retains.after (h : s.Retains key keep all) (hquiet : s.undisturbed key calls = true)
    (hkeep : TrimsTo key keep calls) :
    (s.after calls).Retains key keep (all ++ s.landed key calls) := by
  induction calls generalizing s all with
  | nil =>
    rw [landed, List.append_nil]
    exact h
  | cons x calls ih =>
    obtain ⟨wall, c⟩ := x
    simp only [undisturbed, Bool.and_eq_true, Bool.not_eq_true'] at hquiet
    obtain ⟨⟨hlive, hsweeps⟩, hrest⟩ := hquiet
    have hcall := h.call (liveEntries_of_isLive hlive) hsweeps fun n =>
      hkeep (wall, c) List.mem_cons_self n
    rw [landed_cons, ← List.append_assoc]
    exact ih hcall hrest fun y hy => hkeep y (List.mem_cons_of_mem _ hy)

/-! ## The length of a queue -/

theorem length_call_le (h : s.Sound) (wall : Score) (hkeep : ∀ n, c = .trim key n → n = keep)
    {extra : Nat} (hlen : (s.entries key).length ≤ Queue.most keep + extra) :
    ((s.call wall c).2.entries key).length ≤ Queue.most keep +
      if c.trims key then 0 else if c.appends key then extra + 1 else extra := by
  rcases entries_call h wall c key with
    ⟨score, event, rfl, hentries⟩ | ⟨n, rfl, hentries⟩ | ⟨happends, htrims, hsuffix, -⟩
  · have hlive := (s.liveEntries_suffix key wall).length_le
    rw [hentries, Queue.length_insertEntry]
    simp only [Call.trims, Call.appends, Bool.false_eq_true, if_false, decide_true, if_true]
    omega
  · obtain rfl := hkeep n rfl
    have hnewest := Queue.length_newest_le n (s.entries key)
    rw [hentries]
    omega
  · have hle := hsuffix.length_le
    rw [happends, htrims]
    simp only [Bool.false_eq_true, if_false]
    omega

theorem length_after_le (h : s.Sound) (hkeep : TrimsTo key keep calls) {extra : Nat}
    (hlen : (s.entries key).length ≤ Queue.most keep + extra) :
    ((s.after calls).entries key).length ≤ Queue.most keep + untrimmed key calls +
      if calls.any (·.2.trims key) then 0 else extra := by
  induction calls generalizing s extra with
  | nil => simpa [after, untrimmed] using hlen
  | cons x calls ih =>
    obtain ⟨wall, c⟩ := x
    have hcall := length_call_le h wall (fun n => hkeep (wall, c) List.mem_cons_self n) hlen
    have hrest := ih (h.call wall c) (fun y hy => hkeep y (List.mem_cons_of_mem _ hy)) hcall
    rw [Store.after, untrimmed, List.any_cons]
    cases hlater : calls.any (·.2.trims key) <;> cases htrims : c.trims key <;>
      cases happends : c.appends key <;> simp [hlater, htrims, happends] at hrest ⊢ <;> omega

end Store

end NotificationQueue
