import NotificationQueue.Store

/-!
The order of a queue: by score, and by insertion among equal scores. An insertion puts the new entry
behind all entries that do not have a higher score, and what stays when the entries below a score
are dropped is the end of the queue.
-/
namespace NotificationQueue
set_option autoImplicit false

/-- One entry stands in front of another: it has a lower score, or came in earlier with the same. -/
def Entry.Precedes (a b : Entry) : Prop :=
  a.score < b.score ∨ (a.score = b.score ∧ a.sequence < b.sequence)

instance (a b : Entry) : Decidable (a.Precedes b) :=
  inferInstanceAs (Decidable (_ ∨ _))

theorem Entry.Precedes.score_le {a b : Entry} (h : a.Precedes b) : a.score ≤ b.score := by
  rcases h with h | ⟨h, -⟩ <;> lia

theorem Entry.Precedes.trans {a b c : Entry} (h : a.Precedes b) (h' : b.Precedes c) :
    a.Precedes c := by
  unfold Precedes at *
  lia

theorem Entry.isBefore_iff {a b : Entry} (h : a.sequence < b.sequence) :
    a.isBefore b = true ↔ a.score ≤ b.score := by
  simp only [isBefore, Bool.or_eq_true, Bool.and_eq_true, decide_eq_true_eq]
  lia

namespace Queue

/-! ## Insertion -/

theorem mem_insertEntry {e x : Entry} {l : List Entry} :
    x ∈ insertEntry e l ↔ x = e ∨ x ∈ l := by
  induction l with
  | nil => simp [insertEntry]
  | cons a rest ih =>
    simp only [insertEntry]
    split
    · simp only [List.mem_cons, ih]
      exact or_left_comm
    · simp only [List.mem_cons]

theorem length_insertEntry (e : Entry) (l : List Entry) :
    (insertEntry e l).length = l.length + 1 := by
  induction l with
  | nil => rfl
  | cons a rest ih =>
    simp only [insertEntry]
    split
    · simp only [List.length_cons, ih]
    · rfl

theorem countP_insertEntry (p : Entry → Bool) (e : Entry) (l : List Entry) :
    (insertEntry e l).countP p = l.countP p + if p e then 1 else 0 := by
  induction l with
  | nil => rw [insertEntry, List.countP_cons, List.countP_nil]
  | cons a rest ih =>
    rw [insertEntry]
    split
    · rw [List.countP_cons, ih, List.countP_cons]
      omega
    · rw [List.countP_cons]

theorem insertEntry_eq {e : Entry} {l : List Entry} (h : ∀ a ∈ l, a.sequence < e.sequence) :
    insertEntry e l = l.takeWhile (·.score ≤ e.score) ++ e :: l.dropWhile (·.score ≤ e.score) := by
  induction l with
  | nil => rfl
  | cons a rest ih =>
    have ha := Entry.isBefore_iff (h a List.mem_cons_self)
    by_cases hle : a.score ≤ e.score
    · rw [insertEntry, if_pos (ha.2 hle), ih fun b hb => h b (List.mem_cons_of_mem a hb)]
      simp [hle]
    · rw [insertEntry, if_neg fun hb => hle (ha.1 hb)]
      simp [hle]

theorem insertEntry_sorted {e : Entry} {l : List Entry} (hl : l.Pairwise Entry.Precedes)
    (h : ∀ a ∈ l, a.sequence < e.sequence) : (insertEntry e l).Pairwise Entry.Precedes := by
  induction l with
  | nil => simp [insertEntry]
  | cons a rest ih =>
    obtain ⟨ha, hrest⟩ := List.pairwise_cons.1 hl
    have hae := h a List.mem_cons_self
    simp only [insertEntry]
    split
    · next hb =>
      have hle := (Entry.isBefore_iff hae).1 hb
      refine List.pairwise_cons.2 ⟨fun x hx => ?_, ih hrest fun b hb =>
        h b (List.mem_cons_of_mem a hb)⟩
      rcases mem_insertEntry.1 hx with rfl | hx
      · unfold Entry.Precedes
        lia
      · exact ha x hx
    · next hb =>
      have hlt : e.score < a.score := by
        have : ¬ a.score ≤ e.score := fun hle => hb ((Entry.isBefore_iff hae).2 hle)
        lia
      refine List.pairwise_cons.2 ⟨fun x hx => ?_, hl⟩
      rcases List.mem_cons.1 hx with rfl | hx
      · exact .inl hlt
      · exact Entry.Precedes.trans (.inl hlt) (ha x hx)

theorem insertEntry_rising {e : Entry} {l : List Entry}
    (hl : l.Pairwise fun a b => a.score < b.score) (hne : ∀ a ∈ l, a.score ≠ e.score) :
    (insertEntry e l).Pairwise fun a b => a.score < b.score := by
  induction l with
  | nil => exact List.pairwise_singleton _ _
  | cons a rest ih =>
    obtain ⟨ha, hrest⟩ := List.pairwise_cons.1 hl
    have hae := hne a List.mem_cons_self
    have hbefore : a.isBefore e = true ↔ a.score < e.score := by
      simp [Entry.isBefore, hae]
    rw [insertEntry]
    split
    · next hb =>
      refine List.pairwise_cons.2 ⟨fun x hx => ?_, ih hrest fun b hb =>
        hne b (List.mem_cons_of_mem a hb)⟩
      rcases mem_insertEntry.1 hx with rfl | hx
      · exact hbefore.1 hb
      · exact ha x hx
    · next hb =>
      have hlt : e.score < a.score := by
        have := mt hbefore.2 hb
        lia
      refine List.pairwise_cons.2 ⟨fun x hx => ?_, hl⟩
      rcases List.mem_cons.1 hx with rfl | hx
      · exact hlt
      · have := ha x hx
        lia

/-! ## Parts of a queue -/

theorem filter_suffix {l : List Entry} (h : l.Pairwise fun a b => a.score ≤ b.score) (s : Score) :
    (l.filter fun e => s ≤ e.score) <:+ l := by
  induction l with
  | nil => exact List.suffix_refl []
  | cons a rest ih =>
    obtain ⟨ha, hrest⟩ := List.pairwise_cons.1 h
    by_cases hs : s ≤ a.score
    · have hall : (a :: rest).filter (fun e => s ≤ e.score) = a :: rest := by
        refine List.filter_eq_self.2 fun x hx => ?_
        rcases List.mem_cons.1 hx with rfl | hx
        · exact decide_eq_true hs
        · have := ha x hx
          exact decide_eq_true (by lia)
      exact ⟨[], hall⟩
    · rw [List.filter_cons_of_neg (by simpa using hs)]
      exact (ih hrest).trans (List.suffix_cons a rest)

/-- The last elements of a list of more than twice as many as are to be kept. -/
def newest {α : Type} (keep : Nat) (l : List α) : List α :=
  if l.length ≤ min (2 * keep) Text.maxWord64 then l else l.drop (l.length - keep)

theorem newest_suffix {α : Type} (keep : Nat) (l : List α) : newest keep l <:+ l := by
  unfold newest
  split
  · exact List.suffix_refl l
  · exact List.drop_suffix _ l

theorem newest_map {α β : Type} (f : α → β) (keep : Nat) (l : List α) :
    newest keep (l.map f) = (newest keep l).map f := by
  unfold newest
  rw [List.length_map]
  split
  · rfl
  · rw [List.map_drop]

theorem mem_of_prefix {α : Type} {key : α → Score} {p l : List α} {x y : α}
    (hl : l.Pairwise fun a b => key a < key b) (hp : p <+: l) (hx : x ∈ l) (hy : y ∈ p)
    (hxy : key x ≤ key y) : x ∈ p := by
  obtain ⟨rest, rfl⟩ := hp
  rcases List.mem_append.1 hx with hx | hx
  · exact hx
  · have := (List.pairwise_append.1 hl).2.2 y hy x hx
    lia

end Queue

end NotificationQueue
