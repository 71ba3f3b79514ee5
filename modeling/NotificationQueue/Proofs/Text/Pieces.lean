import NotificationQueue.Text.Blank

/-!
How texts are cut. The pieces between separators are those that lists are split into, words are the
pieces between blanks that hold something, and a cut at the first or at the last separator is the
only one that leaves none before it or behind it.
-/
namespace NotificationQueue.Text
set_option autoImplicit false

variable {c : Char} {cs before after : List Char}

/-! ## Pieces -/

theorem splitAll_cons (c d : Char) (cs : List Char) :
    splitAll c (d :: cs) = if d = c then [] :: splitAll c cs
      else match splitAll c cs with
        | [] => [[d]]
        | piece :: rest => (d :: piece) :: rest :=
  rfl

theorem splitAll_eq_splitOn (c : Char) (cs : List Char) : splitAll c cs = cs.splitOn c := by
  induction cs with
  | nil => rfl
  | cons d cs ih =>
    rw [splitAll_cons, ih, List.splitOn_cons_eq_if_modifyHead]
    cases hpieces : cs.splitOn c with
    | nil => exact absurd hpieces (List.splitOn_ne_nil c cs)
    | cons piece rest => simp

theorem words_eq (cs : List Char) : words cs = (cs.splitOnP isBlank).filter (· ≠ []) := by
  have hpieces : (cs.map fun c => if isBlank c then ' ' else c).splitOn ' ' =
      cs.splitOnP isBlank := by
    induction cs with
    | nil => rfl
    | cons d cs ih =>
      rw [List.map_cons, List.splitOn_cons_eq_if_modifyHead, ih,
        List.splitOnP_cons_eq_if_modifyHead]
      cases hd : isBlank d with
      | true => rfl
      | false =>
        have hne : d ≠ ' ' := by
          rintro rfl
          cases hd
        simp [hne]
  rw [words, splitAll_eq_splitOn, hpieces]

/-! ## Cuts at a separator -/

theorem splitFirst_append (h : c ∉ before) :
    splitFirst c (before ++ c :: after) = some (before, after) := by
  have hall : ∀ x ∈ before, decide (x ≠ c) = true :=
    fun x hx => decide_eq_true fun heq => h (heq ▸ hx)
  unfold splitFirst
  rw [List.takeWhile_append_of_pos hall, List.dropWhile_append_of_pos hall]
  simp

theorem of_splitFirst (h : splitFirst c cs = some (before, after)) :
    cs = before ++ c :: after ∧ c ∉ before := by
  have hsplit := List.takeWhile_append_dropWhile (p := (· ≠ c)) (l := cs)
  have hhead := List.head?_dropWhile_not (· ≠ c) cs
  have hbefore := List.all_takeWhile (p := (· ≠ c)) (l := cs)
  unfold splitFirst at h
  cases hrest : cs.dropWhile (· ≠ c) with
  | nil =>
    rw [hrest] at h
    cases h
  | cons x rest =>
    rw [hrest] at h hsplit hhead
    obtain ⟨rfl, rfl⟩ := Prod.mk.inj (Option.some.inj h)
    have hx : x = c := by simpa using hhead
    rw [hx] at hsplit
    refine ⟨hsplit.symm, fun hmem => ?_⟩
    have hne := List.all_eq_true.1 hbefore c hmem
    simp at hne

theorem splitLast_append (h : c ∉ after) :
    splitLast c (before ++ c :: after) = some (before, after) := by
  have hfirst : splitFirst c (before ++ c :: after).reverse =
      some (after.reverse, before.reverse) := by
    rw [List.reverse_append, List.reverse_cons, List.append_assoc, List.singleton_append]
    exact splitFirst_append fun hmem => h (List.mem_reverse.1 hmem)
  rw [splitLast, hfirst, Option.map_some]
  simp

theorem of_splitLast (h : splitLast c cs = some (before, after)) :
    cs = before ++ c :: after ∧ c ∉ after := by
  obtain ⟨⟨last, first⟩, hfirst, hparts⟩ := Option.map_eq_some_iff.1 h
  obtain ⟨rfl, rfl⟩ := Prod.mk.inj hparts
  obtain ⟨hcs, hnot⟩ := of_splitFirst hfirst
  refine ⟨?_, fun hmem => hnot (List.mem_reverse.1 hmem)⟩
  rw [← List.reverse_reverse cs, hcs]
  simp

end NotificationQueue.Text
