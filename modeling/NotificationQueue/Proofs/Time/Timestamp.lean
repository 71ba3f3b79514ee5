import NotificationQueue.Proofs.Text.Decimal
import NotificationQueue.Proofs.Time.Calendar
import NotificationQueue.Proofs.Time.Score

/-!
Points in time as text: reading the written form gives the point in time back, before year zero and
after year 9999 too. A leap second is read as such where it ends a minute, and as the second that
follows elsewhere, which changes no score.
-/
namespace NotificationQueue
set_option autoImplicit false

namespace Text

variable {c : Char} {cs : List Char}

theorem isBlank_of_isDigit (h : c.isDigit = true) : isBlank c = false := by
  have hlow : 48 ≤ c.toNat := (Char.isDigit_iff_toNat.1 h).1
  have hhigh : c.toNat ≤ 57 := (Char.isDigit_iff_toNat.1 h).2
  simp only [isBlank, Bool.or_eq_false_iff, Bool.and_eq_false_iff, decide_eq_false_iff_not,
    beq_eq_false_iff_ne]
  omega

theorem dropBlanks_cons (h : isBlank c = false) : dropBlanks (c :: cs) = c :: cs :=
  List.dropWhile_cons_of_neg (by rw [h]; exact Bool.false_ne_true)

end Text

namespace Timestamp

/-! ## Numbers -/

variable {most width n : Nat} {cs rest : List Char}

theorem head?_not_digit {mark : Char} (h : mark.isDigit = false) :
    ∀ c ∈ (mark :: rest).head?, c.isDigit = false := by
  intro c hc
  rwa [← Option.some.inj hc]

theorem digits?_append (hdigits : ∀ c ∈ cs, c.isDigit = true) (hne : cs ≠ [])
    (hmost : cs.length ≤ most) (hrest : ∀ c ∈ rest.head?, c.isDigit = false) :
    digits? most (cs ++ rest) = some (Text.digitsOf cs, rest) := by
  obtain ⟨htake, -⟩ := Text.takeWhile_digits hdigits hrest
  have hlength := Text.length_digitsOf hdigits
  have hsome : Text.digitsOf cs ≠ [] := by
    intro h
    rw [h] at hlength
    exact hne (List.length_eq_zero_iff.1 hlength.symm)
  have hds : ((cs.take most).filterMap Text.digitValue?) = Text.digitsOf cs := by
    rw [List.take_of_length_le hmost]
    rfl
  rw [digits?]
  simp only [htake, hds, if_neg hsome, hlength, List.drop_left]

theorem dropBlanks_digits (hdigits : ∀ c ∈ cs, c.isDigit = true) (hne : cs ≠ []) :
    Text.dropBlanks (cs ++ rest) = cs ++ rest := by
  cases cs with
  | nil => exact absurd rfl hne
  | cons c cs => exact Text.dropBlanks_cons (Text.isBlank_of_isDigit (hdigits c List.mem_cons_self))

theorem number?_padded (hwidth : 0 < width) (hn : n < Nat.pow 10 width)
    (hrest : ∀ c ∈ rest.head?, c.isDigit = false) :
    number? width (Text.decimalPadded width n ++ rest) = some (n, rest) := by
  have hlength := Text.length_decimalPadded hwidth hn
  have hne : Text.decimalPadded width n ≠ [] := List.ne_nil_of_length_pos (by omega)
  rw [number?, dropBlanks_digits Text.isDigit_decimalPadded hne,
    digits?_append Text.isDigit_decimalPadded hne (Nat.le_of_eq hlength) hrest, Option.map_some]
  dsimp only
  rw [Text.digitsValue_decimalPadded]

theorem number?_two (hn : n < 100) (hrest : ∀ c ∈ rest.head?, c.isDigit = false) :
    number? 2 (Text.decimalPadded 2 n ++ rest) = some (n, rest) :=
  number?_padded (Nat.succ_pos 1) hn hrest

theorem mark?_cons (mark : Char) (h : Text.isBlank mark = false) :
    mark? mark (mark :: rest) = some rest := by
  rw [mark?, Text.dropBlanks_cons h]
  exact if_pos rfl

/-! ## Years and fractions -/

theorem year?_yearText (year : Int) (hrest : ∀ c ∈ rest.head?, c.isDigit = false) :
    year? (yearText year ++ rest) = some (year, rest) := by
  have hsigned : ∀ m : Nat, digits? (Text.decimalPadded 4 m ++ rest).length
      (Text.decimalPadded 4 m ++ rest) =
      some (Text.digitsOf (Text.decimalPadded 4 m), rest) := by
    intro m
    have hwidth : 4 ≤ (Text.decimalPadded 4 m).length := Text.le_length_decimalPadded
    refine digits?_append Text.isDigit_decimalPadded (List.ne_nil_of_length_pos (by omega)) ?_ hrest
    rw [List.length_append]
    exact Nat.le_add_right _ _
  unfold yearText
  split
  · next h =>
    have hsmall : year.toNat < Nat.pow 10 4 := by
      change year.toNat < 10000
      omega
    have hnumber := number?_padded (by decide) hsmall hrest
    have hvalue : (year.toNat : Int) = year := by omega
    have hlength := Text.length_decimalPadded (by decide) hsmall
    have hdigits : ∀ c ∈ Text.decimalPadded 4 year.toNat, c.isDigit = true :=
      Text.isDigit_decimalPadded
    cases hcs : Text.decimalPadded 4 year.toNat with
    | nil =>
      rw [hcs] at hlength
      cases hlength
    | cons c cs =>
      rw [hcs] at hdigits hnumber
      have hc : c.isDigit = true := hdigits c List.mem_cons_self
      rw [List.cons_append] at hnumber ⊢
      rw [year?, Text.dropBlanks_cons (Text.isBlank_of_isDigit hc)]
      split
      · next heq =>
        cases heq
        exact absurd hc (by decide)
      · next heq =>
        cases heq
        exact absurd hc (by decide)
      · rw [hnumber, Option.map_some]
        dsimp only
        rw [hvalue]
  · next h =>
    by_cases hneg : year < 0
    · rw [if_pos hneg, List.cons_append, year?, Text.dropBlanks_cons (by decide)]
      have hvalue : -1 * (year.natAbs : Int) = year := by omega
      simp only [hsigned, Option.map_some, Text.digitsValue_decimalPadded, hvalue]
    · rw [if_neg hneg, List.cons_append, year?, Text.dropBlanks_cons (by decide)]
      have hvalue : 1 * (year.natAbs : Int) = year := by omega
      simp only [hsigned, Option.map_some, Text.digitsValue_decimalPadded, hvalue]

theorem fraction?_padded (places : Nat) (hplaces : 0 < places) (hmost : places ≤ 9)
    (hn : n < Nat.pow 10 places) (hrest : ∀ c ∈ rest.head?, c.isDigit = false) :
    fraction? ('.' :: Text.decimalPadded places n ++ rest) =
      some (n * Nat.pow 10 (9 - places), rest) := by
  have hlength := Text.length_decimalPadded hplaces hn
  have hdigits : ∀ c ∈ Text.decimalPadded places n, c.isDigit = true :=
    Text.isDigit_decimalPadded
  have hread : digits? 9 (Text.decimalPadded places n ++ rest) =
      some (Text.digitsOf (Text.decimalPadded places n), rest) :=
    digits?_append hdigits (List.ne_nil_of_length_pos (by omega)) (by omega) hrest
  have hend : rest.dropWhile Char.isDigit = rest := by
    have hnone : ∀ c ∈ ([] : List Char), c.isDigit = true := by simp
    exact (Text.takeWhile_digits hnone hrest).2
  rw [List.cons_append, fraction?, hread]
  simp only [Option.bind_eq_bind, Option.bind_some, hend, Text.digitsValue_decimalPadded,
    Text.length_digitsOf hdigits, hlength]
  rfl

theorem fraction?_fractionText (hn : n < 1000000000)
    (hrest : ∀ c ∈ rest.head?, c.isDigit = false) (hpoint : rest.head? ≠ some '.') :
    fraction? (fractionText n ++ rest) = some (n, rest) := by
  unfold fractionText
  split
  · next h =>
    rw [h, List.nil_append]
    unfold fraction?
    split
    · exact absurd rfl hpoint
    · rfl
  · split
    · next h =>
      have hsmall : n / 1000000 < 1000 := by omega
      have hvalue : n / 1000000 * Nat.pow 10 (9 - 3) = n := by
        change n / 1000000 * 1000000 = n
        omega
      rw [fraction?_padded 3 (by decide) (by decide) hsmall hrest, hvalue]
    · split
      · next h =>
        have hsmall : n / 1000 < 1000000 := by omega
        have hvalue : n / 1000 * Nat.pow 10 (9 - 6) = n := by
          change n / 1000 * 1000 = n
          omega
        rw [fraction?_padded 6 (by decide) (by decide) hsmall hrest, hvalue]
      · have hvalue : n * Nat.pow 10 (9 - 9) = n := Nat.mul_one n
        rw [fraction?_padded 9 (by decide) (by decide) hn hrest, hvalue]

/-! ## Points in time -/

/-- The point in time is one that can be held: its second is kept, and it has the nanoseconds of a
second or of a leap second. -/
structure IsHeld (t : Timestamp) : Prop where
  kept : isKept t.seconds = true
  nanos : t.nanos < 2000000000

/-- A leap second ends a minute, as those of universal time do. -/
def IsUniversal (t : Timestamp) : Prop :=
  1000000000 ≤ t.nanos → t.seconds % 60 = 59

/-- What is read of the written form: a leap second that does not end a minute is the second that
follows. -/
def settled (t : Timestamp) : Timestamp :=
  if t.seconds % 60 = 59 then t
  else ⟨t.seconds + (t.nanos / 1000000000 : Nat), t.nanos % 1000000000⟩

variable {t : Timestamp}

theorem settled_eq_self_iff : t.settled = t ↔ t.IsUniversal := by
  unfold settled
  constructor
  · intro h hleap
    split at h
    · next hsecond => exact hsecond
    · have hnanos : t.nanos % 1000000000 = t.nanos := congrArg nanos h
      omega
  · intro h
    split
    · rfl
    · next hsecond =>
      have hnanos : t.nanos < 1000000000 := Nat.not_le.1 (mt h hsecond)
      rw [Nat.div_eq_of_lt hnanos, Nat.mod_eq_of_lt hnanos]
      simp

theorem score_settled (t : Timestamp) : t.settled.score = t.score := by
  unfold settled
  split
  · rfl
  · simp only [score]
    lia

theorem date?_append {date : Calendar.Date} (hvalid : date.isValid = true) :
    date? (yearText date.year ++ ('-' :: (Text.decimalPadded 2 date.month ++
      ('-' :: (Text.decimalPadded 2 date.day ++ ('T' :: rest)))))) = some (date, rest) := by
  have hshort : date.month < 100 ∧ date.day < 100 := by
    simp only [Calendar.Date.isValid, Bool.and_eq_true, decide_eq_true_eq] at hvalid
    have hmost := Calendar.daysInMonth_le date.year date.month
    omega
  have hhyphen : '-'.isDigit = false := by decide
  have hletter : 'T'.isDigit = false := by decide
  rw [date?, year?_yearText date.year (head?_not_digit hhyphen)]
  simp only [Option.bind_eq_bind, Option.bind_some, mark?_cons '-' (by decide),
    number?_two hshort.1 (head?_not_digit hhyphen),
    number?_two hshort.2 (head?_not_digit hletter)]
  simp [hvalid]

theorem timeOfDay?_append {hour minute second nanos : Nat} (hhour : hour < 24)
    (hminute : minute < 60) (hsecond : second ≤ 60) (hnanos : nanos < 1000000000)
    (hrest : ∀ c ∈ rest.head?, c.isDigit = false) (hpoint : rest.head? ≠ some '.') :
    timeOfDay? (Text.decimalPadded 2 hour ++ (':' :: (Text.decimalPadded 2 minute ++
      (':' :: (Text.decimalPadded 2 second ++ (fractionText nanos ++ rest)))))) =
      some ((3600 * hour + 60 * minute + (second - second / 60),
        1000000000 * (second / 60) + nanos), rest) := by
  have hcolon : ':'.isDigit = false := by decide
  have hfraction : ∀ c ∈ (fractionText nanos ++ rest).head?, c.isDigit = false := by
    unfold fractionText
    split
    · exact hrest
    · split
      · exact head?_not_digit (by decide)
      · split <;> exact head?_not_digit (by decide)
  have hin : hour < 24 ∧ minute < 60 ∧ second ≤ 60 := ⟨hhour, hminute, hsecond⟩
  rw [timeOfDay?, number?_two (by omega) (head?_not_digit hcolon)]
  simp only [Option.bind_eq_bind, Option.bind_some, mark?_cons ':' (by decide),
    number?_two (n := minute) (by omega) (head?_not_digit hcolon),
    number?_two (n := second) (by omega) hfraction,
    fraction?_fractionText hnanos hrest hpoint, if_pos hin]
  rfl

theorem exists_day (seconds : Int) : ∃ (days : Int) (n : Nat), n < 86400 ∧
    seconds.fdiv perDay = days ∧ seconds = days * perDay + n := by
  have hdays : seconds.fdiv perDay = seconds / 86400 := by
    rw [perDay, Int.fdiv_eq_ediv_of_nonneg _ (by decide)]
  exact ⟨seconds / 86400, (seconds % 86400).toNat, by omega, hdays, by rw [perDay]; omega⟩

theorem settled_eq {days : Int} {n : Nat} (hseconds : t.seconds = days * perDay + n)
    (hnanos : t.nanos < 2000000000) :
    t.settled = ⟨days * perDay + (3600 * (n / 3600) + 60 * (n / 60 % 60) +
        (n % 60 + t.nanos / 1000000000 - (n % 60 + t.nanos / 1000000000) / 60) : Nat),
      1000000000 * ((n % 60 + t.nanos / 1000000000) / 60) + t.nanos % 1000000000⟩ := by
  have hsecond : t.seconds % 60 = (n % 60 : Nat) := by
    rw [hseconds, perDay]
    omega
  unfold settled
  split
  · obtain ⟨seconds, nanos⟩ := t
    simp only [Timestamp.mk.injEq] at *
    omega
  · simp only [Timestamp.mk.injEq]
    rw [hseconds]
    omega

theorem isKept_settled (h : t.IsHeld) : isKept t.settled.seconds = true := by
  have hkept := (isKept_iff _).1 h.kept
  have hnanos := h.nanos
  rw [isKept_iff]
  unfold settled
  split
  · exact hkept
  · dsimp only
    omega

/-- **Reading the written form gives the point in time back.** -/
theorem read?_write (h : t.IsHeld) : read? t.write = some t.settled := by
  obtain ⟨days, n, hn, hdays, hseconds⟩ := exists_day t.seconds
  have hnanos := h.nanos
  have hsecond : (t.seconds - days * perDay).toNat = n := by omega
  have hyears : Calendar.Date.toDays ⟨Calendar.firstYear, 1, 1⟩ ≤ days ∧
      days ≤ Calendar.Date.toDays ⟨Calendar.lastYear, 12, 31⟩ := by
    have hkept := (isKept_iff _).1 h.kept
    have hfirst : Calendar.Date.toDays ⟨Calendar.firstYear, 1, 1⟩ = -96465292 := by decide
    have hlast : Calendar.Date.toDays ⟨Calendar.lastYear, 12, 31⟩ = 95026236 := by decide
    rw [hseconds, perDay] at hkept
    omega
  have hyear := Calendar.year_ofDays hyears.1 hyears.2
  have hkept := isKept_settled h
  rw [settled_eq hseconds h.nanos] at hkept ⊢
  have hoffset : offset? ['Z'] = some (0, []) := by decide
  rw [read?, write, writeWith, String.toList_ofList]
  simp only [hdays, hsecond, List.append_assoc, List.cons_append]
  rw [date?_append (Calendar.isValid_ofDays days)]
  simp only [Option.bind_eq_bind, Option.bind_some]
  rw [timeOfDay?_append (by omega) (by omega) (by omega) (by omega) (head?_not_digit (by decide))
    (by decide)]
  simp only [Option.bind_some, Text.dropBlanks_cons (show Text.isBlank 'Z' = false by decide),
    hoffset, Calendar.toDays_ofDays, Int.sub_zero]
  rw [if_pos ⟨rfl, hyear⟩, if_pos hkept]
  rfl

/-! ## What is read -/

theorem of_digits? {ds : List Nat} (h : digits? most cs = some (ds, rest)) :
    ds.length ≤ most ∧ ∀ d ∈ ds, d < 10 := by
  unfold digits? at h
  dsimp only at h
  split at h
  · cases h
  · cases h
    refine ⟨Nat.le_trans (List.length_filterMap_le _ _) (List.length_take_le _ _), ?_⟩
    intro d hd
    obtain ⟨c, -, hc⟩ := List.mem_filterMap.1 hd
    exact Text.digitValue?_lt hc

theorem nanos_of_fraction? (h : fraction? cs = some (n, rest)) : n < 1000000000 := by
  unfold fraction? at h
  split at h
  · simp only [Option.bind_eq_bind, Option.bind_eq_some_iff, Option.pure_def, Option.some.injEq,
      Prod.mk.injEq] at h
    obtain ⟨⟨ds, after⟩, hds, rfl, -⟩ := h
    obtain ⟨hlength, hten⟩ := of_digits? hds
    have hvalue : Text.digitsValue 0 ds < 1 * Nat.pow 10 ds.length := Text.digitsValue_lt hten 0
    rw [Nat.one_mul] at hvalue
    calc Text.digitsValue 0 ds * Nat.pow 10 (9 - ds.length)
        < Nat.pow 10 ds.length * Nat.pow 10 (9 - ds.length) :=
          Nat.mul_lt_mul_of_pos_right hvalue (Nat.pow_pos (by decide))
      _ = Nat.pow 10 9 := by
          refine (Nat.pow_add 10 _ _).symm.trans ?_
          rw [Nat.add_sub_cancel' hlength]
  · cases h
    decide

theorem leap_of_timeOfDay? {second nanos : Nat}
    (h : timeOfDay? cs = some ((second, nanos), rest)) :
    nanos < 2000000000 ∧ (1000000000 ≤ nanos → second % 60 = 59) := by
  simp only [timeOfDay?, Option.bind_eq_bind, Option.bind_eq_some_iff] at h
  obtain ⟨⟨hour, _⟩, -, _, -, ⟨minute, _⟩, -, _, -, ⟨sec, _⟩, -, ⟨frac, _⟩, hfrac, h⟩ := h
  have hsmall := nanos_of_fraction? hfrac
  dsimp only at h
  split at h
  · next hin =>
    simp only [Option.pure_def, Option.some.injEq, Prod.mk.injEq] at h
    obtain ⟨⟨hsecond, hnanos⟩, -⟩ := h
    refine ⟨by omega, fun hleap => ?_⟩
    have hsixty : sec = 60 := by omega
    subst hsixty
    omega
  · cases h

theorem offset_mod {offset : Int} (h : offset? cs = some (offset, rest)) : offset % 60 = 0 := by
  unfold offset? at h
  dsimp only at h
  split at h
  case h_1 | h_2 | h_3 =>
    simp only [Option.bind_eq_bind, Option.bind_eq_some_iff] at h
    obtain ⟨⟨hours, _⟩, -, ⟨minutes, _⟩, -, h⟩ := h
    dsimp only at h
    split at h
    · cases h
      omega
    · cases h
  case h_4 =>
    split at h
    · cases h
      rfl
    · split at h
      · cases h
        rfl
      · cases h
  case h_5 => cases h

/-- **What is read can be held, and a leap second that is read ends a minute.** -/
theorem isHeld_of_read? {s : String} (h : read? s = some t) : t.IsHeld ∧ t.IsUniversal := by
  simp only [read?, Option.bind_eq_bind, Option.bind_eq_some_iff] at h
  obtain ⟨⟨date, _⟩, -, ⟨⟨second, nanos⟩, _⟩, htime, ⟨offset, _⟩, hoffset, h⟩ := h
  obtain ⟨hnanos, hleap⟩ := leap_of_timeOfDay? htime
  have hminutes := offset_mod hoffset
  dsimp only at h
  split at h
  · split at h
    · next hkept =>
      simp only [Option.pure_def, Option.some.injEq] at h
      subst h
      refine ⟨⟨hkept, hnanos⟩, fun hsecond => ?_⟩
      have hends := hleap hsecond
      simp only [perDay]
      omega
    · cases h
  · cases h

theorem isHeld_ofMicros (m : Int) : (ofMicros m).IsHeld ∧ (ofMicros m).IsUniversal := by
  suffices hsecond : isKept (ofMicros m).seconds = true ∧ (ofMicros m).nanos < 1000000000 from
    ⟨⟨hsecond.1, by omega⟩, fun hleap => absurd hsecond.2 (Nat.not_lt.2 hleap)⟩
  unfold ofMicros ofMicros?
  dsimp only
  split
  · next hkept =>
    have hfloor : m.fdiv 1000000 = m / 1000000 := Int.fdiv_eq_ediv_of_nonneg m (by decide)
    rw [hfloor] at hkept ⊢
    refine ⟨hkept, ?_⟩
    show (m - m / 1000000 * 1000000).toNat * 1000 < 1000000000
    omega
  · exact ⟨by decide, by decide⟩

end Timestamp

end NotificationQueue
