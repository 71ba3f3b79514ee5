import NotificationQueue.Uuid

/-!
Event ids as text. A text reads as an id just if it spells the id: its digits, in either letter
case, stand alone, or hyphenated, or hyphenated in braces, or hyphenated behind the name of the
namespace. So the canonical form of an id reads as the id; it is never empty.
-/
namespace NotificationQueue
set_option autoImplicit false

namespace Text

theorem hexValue?_hexDigit {n : Nat} (h : n < 16) : hexValue? (hexDigit n) = some n := by
  have hall : ∀ m : Fin 16, hexValue? (hexDigit m) = some m.val := by decide
  exact hall ⟨n, h⟩

theorem toLower_of_not_ascii {c : Char} (h : ¬ c.toNat < 128) : c.toLower = c := by
  unfold Char.toLower
  rw [dif_neg]
  rintro ⟨-, hle⟩
  have hlast : c.toNat ≤ 'Z'.toNat := UInt32.le_iff_toNat_le.1 hle
  exact h (Nat.lt_of_le_of_lt hlast (by decide))

theorem hexValue?_toLower (c : Char) : hexValue? c.toLower = hexValue? c := by
  by_cases h : c.toNat < 128
  · have hall : ∀ m : Fin 128, hexValue? (Char.ofNat m).toLower = hexValue? (Char.ofNat m) := by
      decide +kernel
    have hself := hall ⟨c.toNat, h⟩
    rwa [Char.ofNat_toNat] at hself
  · rw [toLower_of_not_ascii h]

theorem of_hexValue?_eq_some {c : Char} {n : Nat} (h : hexValue? c = some n) :
    n < 16 ∧ c.toNat < 128 := by
  unfold hexValue? at h
  grind

theorem hexValue?_eq_some_iff {c : Char} {n : Nat} :
    hexValue? c = some n ↔ n < 16 ∧ c.toLower = hexDigit n := by
  constructor
  · intro h
    obtain ⟨hn, hc⟩ := of_hexValue?_eq_some h
    have hall : ∀ m : Fin 128, ∀ k ∈ hexValue? (Char.ofNat m),
        (Char.ofNat m).toLower = hexDigit k := by decide +kernel
    have hself := hall ⟨c.toNat, hc⟩ n
    rw [Char.ofNat_toNat] at hself
    exact ⟨hn, hself h⟩
  · rintro ⟨hn, hlower⟩
    rw [← hexValue?_toLower, hlower, hexValue?_hexDigit hn]

theorem mapM_hexValue?_eq_some_iff {cs : List Char} {ds : List Nat} :
    cs.mapM hexValue? = some ds ↔ (∀ d ∈ ds, d < 16) ∧ cs.map Char.toLower = ds.map hexDigit := by
  induction cs generalizing ds with
  | nil => cases ds <;> simp
  | cons c cs ih =>
    rw [List.mapM_cons]
    cases ds with
    | nil => simp [Option.bind_eq_some_iff]
    | cons d ds =>
      simp only [Option.bind_eq_bind, Option.bind_eq_some_iff, Option.pure_def, Option.some.injEq,
        List.cons.injEq, List.forall_mem_cons, List.map_cons, ih, hexValue?_eq_some_iff]
      constructor
      · rintro ⟨d', ⟨hd, hc⟩, ds', ⟨hds, hcs⟩, rfl, rfl⟩
        exact ⟨⟨hd, hds⟩, hc, hcs⟩
      · rintro ⟨⟨hd, hds⟩, hc, hcs⟩
        exact ⟨d, ⟨hd, hc⟩, ds, ⟨hds, hcs⟩, rfl, rfl⟩

end Text

namespace Uuid

variable {id : Uuid} {cs : List Char}

/-! ## Spellings -/

/-- Characters are the digits of an id, each in either letter case. -/
def IsDigits (id : Uuid) (cs : List Char) : Prop :=
  cs.map Char.toLower = id.simpleChars

inductive Spells (id : Uuid) : List Char → Prop
  | simple {cs : List Char} (h : id.IsDigits cs) : Spells id cs
  | hyphenated {cs : List Char} (h : id.IsDigits cs) : Spells id (hyphenated cs)
  | braced {cs : List Char} (h : id.IsDigits cs) : Spells id ('\x7b' :: hyphenated cs ++ ['\x7d'])
  | named {front cs : List Char} (hfront : front.map Char.toLower = urn) (h : id.IsDigits cs) :
    Spells id (front ++ hyphenated cs)

theorem IsDigits.length_eq (hid : id.IsWellFormed) (h : id.IsDigits cs) :
    cs.length = digitCount := by
  have hlen := congrArg List.length h
  rwa [List.length_map, simpleChars, List.length_map, hid.1] at hlen

theorem IsDigits.ne_hyphen (hid : id.IsWellFormed) (h : id.IsDigits cs) : ∀ c ∈ cs, c ≠ '-' := by
  rintro c hc rfl
  have hmem : '-' ∈ id.simpleChars := h ▸ List.mem_map_of_mem (f := Char.toLower) hc
  obtain ⟨d, hd, hdigit⟩ := List.mem_map.1 hmem
  have hall : ∀ m : Fin 16, Text.hexDigit m ≠ '-' := by decide
  exact hall ⟨d, hid.2 d hd⟩ hdigit

theorem isDigits_simpleChars (h : id.IsWellFormed) : id.IsDigits id.simpleChars := by
  rw [IsDigits, simpleChars, List.map_map]
  refine List.map_congr_left fun d hd => ?_
  exact (Text.hexValue?_eq_some_iff.1 (Text.hexValue?_hexDigit (h.2 d hd))).2

/-! ## Hyphens -/

theorem length_hyphenated (h : cs.length = digitCount) :
    (hyphenated cs).length = digitCount + 4 := by
  unfold digitCount at *
  simp only [hyphenated, List.length_append, List.length_cons, List.length_take, List.length_drop]
  omega

theorem getElem?_hyphenated (h : cs.length = digitCount) : (hyphenated cs)[8]? = some '-' := by
  have hstart : (cs.take 8).length = 8 := by
    rw [List.length_take, h]
    rfl
  rw [hyphenated, List.append_assoc, List.append_assoc, List.append_assoc,
    List.getElem?_append_right (Nat.le_of_eq hstart), hstart]
  rfl

theorem filter_hyphenated (h : ∀ c ∈ cs, c ≠ '-') :
    (hyphenated cs).filter (· ≠ '-') = cs := by
  have hself : ∀ l : List Char, (∀ c ∈ l, c ≠ '-') → l.filter (· ≠ '-') = l := fun l hl =>
    List.filter_eq_self.2 fun c hc => decide_eq_true (hl c hc)
  have htake : ∀ m n, ((cs.drop m).take n).filter (· ≠ '-') = (cs.drop m).take n := fun m n =>
    hself _ fun c hc => h c (List.mem_of_mem_drop (List.mem_of_mem_take hc))
  have hstart : (cs.take 8).filter (· ≠ '-') = cs.take 8 :=
    hself _ fun c hc => h c (List.mem_of_mem_take hc)
  have hend : (cs.drop 20).filter (· ≠ '-') = cs.drop 20 :=
    hself _ fun c hc => h c (List.mem_of_mem_drop hc)
  have hhyphen : ∀ l : List Char, ('-' :: l).filter (· ≠ '-') = l.filter (· ≠ '-') := fun l => by
    rw [List.filter_cons_of_neg (by simp)]
  have hnext : ∀ m, (cs.drop m).take 4 ++ cs.drop (m + 4) = cs.drop m := fun m => by
    rw [← List.drop_drop, List.take_append_drop]
  simp only [hyphenated, List.filter_append, hhyphen, hstart, htake, hend, List.append_assoc]
  rw [hnext 16, hnext 12, hnext 8, List.take_append_drop]

/-! ## Reading -/

theorem ofDigits?_eq_some_iff : ofDigits? cs = some id ↔ id.IsWellFormed ∧ id.IsDigits cs := by
  unfold ofDigits?
  constructor
  · intro h
    split at h
    · next hlen =>
      obtain ⟨ds, hds, rfl⟩ := Option.map_eq_some_iff.1 h
      obtain ⟨hsmall, hdigits⟩ := Text.mapM_hexValue?_eq_some_iff.1 hds
      have hcount := congrArg List.length hdigits
      rw [List.length_map, List.length_map, hlen] at hcount
      exact ⟨⟨hcount.symm, hsmall⟩, hdigits⟩
    · cases h
  · rintro ⟨hid, h⟩
    rw [if_pos (h.length_eq hid), Text.mapM_hexValue?_eq_some_iff.2 ⟨hid.2, h⟩]
    rfl

theorem ofHyphenated?_eq_some_iff : ofHyphenated? cs = some id ↔
    id.IsWellFormed ∧ ∃ ds, id.IsDigits ds ∧ cs = hyphenated ds := by
  unfold ofHyphenated?
  dsimp only
  constructor
  · intro h
    split at h
    · next hform =>
      obtain ⟨hid, hdigits⟩ := ofDigits?_eq_some_iff.1 h
      exact ⟨hid, _, hdigits, hform.2.symm⟩
    · cases h
  · rintro ⟨hid, ds, hdigits, rfl⟩
    rw [filter_hyphenated (hdigits.ne_hyphen hid),
      if_pos ⟨length_hyphenated (hdigits.length_eq hid), rfl⟩]
    exact ofDigits?_eq_some_iff.2 ⟨hid, hdigits⟩

theorem length_urn : urn.length = 9 := by decide

/-- A hyphen stands where the name of the namespace has its last colon. -/
theorem ofChars?_hyphenated {ds : List Char} (hid : id.IsWellFormed) (h : id.IsDigits ds) :
    ofChars? (hyphenated ds) = some id := by
  have hlen := length_hyphenated (h.length_eq hid)
  have hurn : ¬ ((hyphenated ds).take urn.length).map Char.toLower = urn := by
    intro heq
    have hlast := congrArg (fun cs => cs[8]?) heq
    simp only [List.getElem?_map] at hlast
    rw [List.getElem?_take_of_lt (by decide), getElem?_hyphenated (h.length_eq hid)] at hlast
    exact absurd hlast (by decide)
  unfold ofChars?
  rw [if_neg (by rw [hlen]; decide), if_neg (by rw [hlen]; decide), if_neg hurn]
  exact ofHyphenated?_eq_some_iff.2 ⟨hid, ds, h, rfl⟩

theorem ofChars?_of_spells (hid : id.IsWellFormed) (h : id.Spells cs) : ofChars? cs = some id := by
  cases h with
  | simple h =>
    unfold ofChars?
    rw [if_pos (h.length_eq hid)]
    exact ofDigits?_eq_some_iff.2 ⟨hid, h⟩
  | hyphenated h => exact ofChars?_hyphenated hid h
  | @braced ds h =>
    have hlen := length_hyphenated (h.length_eq hid)
    have hall : ('\x7b' :: hyphenated ds ++ ['\x7d']).length = digitCount + 6 := by
      rw [List.length_append, List.length_cons, hlen]
      rfl
    unfold ofChars?
    rw [if_neg (by rw [hall]; decide), if_pos hall]
    show (if (hyphenated ds ++ ['\x7d']).getLast? = some '\x7d' then
      ofHyphenated? (hyphenated ds ++ ['\x7d']).dropLast else none) = some id
    rw [List.getLast?_concat, if_pos rfl, List.dropLast_concat]
    exact ofHyphenated?_eq_some_iff.2 ⟨hid, ds, h, rfl⟩
  | @named front ds hfront h =>
    have hlen := length_hyphenated (h.length_eq hid)
    have hname : front.length = urn.length := by rw [← hfront, List.length_map]
    have hall : (front ++ hyphenated ds).length = digitCount + 13 := by
      rw [List.length_append, hname, hlen, length_urn]
      rfl
    unfold ofChars?
    rw [if_neg (by rw [hall]; decide), if_neg (by rw [hall]; decide), List.take_left' hname,
      if_pos hfront, List.drop_left' hname]
    exact ofHyphenated?_eq_some_iff.2 ⟨hid, ds, h, rfl⟩

theorem spells_of_ofChars? (h : ofChars? cs = some id) : id.IsWellFormed ∧ id.Spells cs := by
  unfold ofChars? at h
  split at h
  · obtain ⟨hid, hdigits⟩ := ofDigits?_eq_some_iff.1 h
    exact ⟨hid, .simple hdigits⟩
  · split at h
    · split at h
      · next rest _ _ =>
        split at h
        · next hlast =>
          obtain ⟨hid, ds, hdigits, hform⟩ := ofHyphenated?_eq_some_iff.1 h
          obtain ⟨front, rfl⟩ := List.getLast?_eq_some_iff.1 hlast
          rw [List.dropLast_concat] at hform
          exact ⟨hid, hform ▸ .braced hdigits⟩
        · cases h
      · cases h
    · split at h
      · next hname =>
        obtain ⟨hid, ds, hdigits, hform⟩ := ofHyphenated?_eq_some_iff.1 h
        rw [← List.take_append_drop urn.length cs, hform]
        exact ⟨hid, .named hname hdigits⟩
      · obtain ⟨hid, ds, hdigits, rfl⟩ := ofHyphenated?_eq_some_iff.1 h
        exact ⟨hid, .hyphenated hdigits⟩

/-- **A text reads as an id just if it spells the id.** -/
theorem read?_eq_some_iff {s : String} :
    read? s = some id ↔ id.IsWellFormed ∧ id.Spells s.toList :=
  ⟨spells_of_ofChars?, fun h => ofChars?_of_spells h.1 h.2⟩

theorem read?_write (h : id.IsWellFormed) : read? id.write = some id := by
  refine read?_eq_some_iff.2 ⟨h, ?_⟩
  rw [write, String.toList_ofList]
  exact .hyphenated (isDigits_simpleChars h)

theorem write_ne_empty (id : Uuid) : id.write ≠ "" := by
  intro h
  have hchars := congrArg String.toList h
  rw [write, String.toList_ofList] at hchars
  have hlen := congrArg List.length hchars
  simp only [toChars, hyphenated, List.length_append, List.length_cons, String.toList_empty,
    List.length_nil] at hlen
  omega

end Uuid

end NotificationQueue
