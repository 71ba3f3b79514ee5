import NotificationQueue.Time.Calendar

/-!
The calendar in both directions: what lies a number of days from the epoch is a day of the calendar,
and lies that number of days from it.
-/
namespace NotificationQueue.Calendar
set_option autoImplicit false

/-! ## Years that begin in March -/

def daysBefore (year : Int) : Int :=
  365 * year + year / 4 - year / 100 + year / 400

/-- A day of a year that begins in March, counted from zero. -/
def ofMarch (year : Int) (day : Nat) : Date :=
  let marchMonth := (5 * day + 2) / 153
  let month := if marchMonth < 10 then marchMonth + 3 else marchMonth - 9
  ⟨if month ≤ 2 then year + 1 else year, month, day - (153 * marchMonth + 2) / 5 + 1⟩

variable {year : Int} {day : Nat}

theorem daysBefore_add (year : Int) (n : Nat) :
    daysBefore year + 365 * n ≤ daysBefore (year + n) := by
  induction n with
  | zero => simp
  | succ n ih =>
    have hnext : ∀ y : Int, daysBefore y + 365 ≤ daysBefore (y + 1) := by
      intro y
      unfold daysBefore
      omega
    have hlast := hnext (year + n)
    rw [Int.add_assoc] at hlast
    push_cast
    omega

theorem daysBefore_le {a b : Int} (h : a ≤ b) : daysBefore a + 365 * (b - a) ≤ daysBefore b := by
  obtain ⟨n, rfl⟩ := Int.le.dest h
  have hadd := daysBefore_add a n
  omega

theorem marchDays_eq (d : Date) : d.marchDays =
    daysBefore (if d.month ≤ 2 then d.year - 1 else d.year) +
      ((153 * ((d.month + 9) % 12 : Nat) + 2) / 5 : Int) + d.day - 1 := by
  simp only [Date.marchDays, daysBefore,
    Int.fdiv_eq_ediv_of_nonneg _ (show (0 : Int) ≤ 4 by decide),
    Int.fdiv_eq_ediv_of_nonneg _ (show (0 : Int) ≤ 100 by decide),
    Int.fdiv_eq_ediv_of_nonneg _ (show (0 : Int) ≤ 400 by decide)]

theorem marchDays_ofMarch (h : day ≤ 365) :
    (ofMarch year day).marchDays = daysBefore year + day := by
  have hmonth : (5 * day + 2) / 153 ≤ 11 := by omega
  have hstart : (153 * ((5 * day + 2) / 153) + 2) / 5 ≤ day := by omega
  rw [marchDays_eq]
  by_cases hm : (5 * day + 2) / 153 < 10
  · have hlate : ¬ (5 * day + 2) / 153 + 3 ≤ 2 := by omega
    have hback : ((5 * day + 2) / 153 + 3 + 9) % 12 = (5 * day + 2) / 153 := by omega
    simp only [ofMarch, if_pos hm, if_neg hlate, hback]
    omega
  · have hearly : (5 * day + 2) / 153 - 9 ≤ 2 := by omega
    have hback : ((5 * day + 2) / 153 - 9 + 9) % 12 = (5 * day + 2) / 153 := by omega
    simp only [ofMarch, if_neg hm, if_pos hearly, hback, Int.add_sub_cancel]
    omega

theorem year_ofMarch (h : day ≤ 365) :
    (ofMarch year day).year = if day < 306 then year else year + 1 := by
  simp only [ofMarch]
  by_cases hm : day < 306
  · rw [if_pos hm, if_neg (by split <;> omega)]
  · rw [if_neg hm, if_pos (by split <;> omega)]

theorem daysInMonth_of_ne {month : Nat} (h : month ≠ 2) (year : Int) :
    daysInMonth year month = daysInMonth 0 month := by
  rw [daysInMonth, daysInMonth, if_neg h, if_neg h]

theorem daysInMonth_le (year : Int) (month : Nat) : daysInMonth year month ≤ 31 := by
  unfold daysInMonth
  split
  · split <;> decide
  · split <;> decide

theorem isValid_ofMarch (h : day ≤ 365) (hleap : day = 365 → isLeapYear (year + 1) = true) :
    (ofMarch year day).isValid = true := by
  -- Whatever the year, the days of all months but February are those of the calendar.
  have hmonths : ∀ d : Fin 366,
      let date := ofMarch 0 d
      1 ≤ date.month ∧ date.month ≤ 12 ∧ 1 ≤ date.day ∧
        (date.month = 2 ∧ (date.day ≤ 28 ∨ d.val = 365 ∧ date.day = 29) ∨
          date.month ≠ 2 ∧ date.day ≤ daysInMonth 0 date.month) := by
    decide +kernel
  obtain ⟨hlow, hhigh, hday, hlast⟩ := hmonths ⟨day, by omega⟩
  have hmonth : (ofMarch year day).month = (ofMarch 0 day).month := rfl
  have hend : (ofMarch year day).day ≤
      daysInMonth (ofMarch year day).year (ofMarch year day).month := by
    change (ofMarch 0 day).day ≤ _
    rcases hlast with ⟨hfebruary, hlast⟩ | ⟨hother, hlast⟩
    · have hyear : (ofMarch year day).year = year + 1 := if_pos (by
        change (ofMarch 0 day).month ≤ 2
        exact Nat.le_of_eq hfebruary)
      rw [hmonth, hfebruary, hyear, daysInMonth, if_pos rfl]
      rcases hlast with hlast | ⟨hlong, hlast⟩
      · exact Nat.le_trans hlast (by split <;> omega)
      · rw [if_pos (hleap hlong)]
        exact Nat.le_of_eq hlast
    · rwa [hmonth, daysInMonth_of_ne hother]
  simp only [Date.isValid, Bool.and_eq_true, decide_eq_true_eq]
  exact ⟨⟨⟨hlow, hhigh⟩, hday⟩, hend⟩

/-! ## Days of an era -/

theorem exists_parts {n : Nat} (h : n < 146097) :
    ∃ c q k d : Nat, c ≤ 3 ∧ q ≤ 24 ∧ k ≤ 3 ∧ (d < 365 ∨ d = 365 ∧ k = 3) ∧
      (1461 * q + 365 * k + d < 36524 ∨ 1461 * q + 365 * k + d = 36524 ∧ c = 3) ∧
      n = 36524 * c + (1461 * q + 365 * k + d) := by
  obtain ⟨c, r, hc, hr, hn⟩ :
      ∃ c r, c ≤ 3 ∧ (r < 36524 ∨ r = 36524 ∧ c = 3) ∧ n = 36524 * c + r := by
    by_cases hlast : n = 146096
    · exact ⟨3, 36524, by omega, by omega, by omega⟩
    · exact ⟨n / 36524, n % 36524, by omega, by omega, by omega⟩
  obtain ⟨q, s, hq, hs, hrs⟩ : ∃ q s, q ≤ 24 ∧ s < 1461 ∧ r = 1461 * q + s :=
    ⟨r / 1461, r % 1461, by omega, by omega, by omega⟩
  obtain ⟨k, d, hk, hd, hsd⟩ : ∃ k d, k ≤ 3 ∧ (d < 365 ∨ d = 365 ∧ k = 3) ∧ s = 365 * k + d := by
    by_cases hlast : s = 1460
    · exact ⟨3, 365, by omega, by omega, by omega⟩
    · exact ⟨s / 365, s % 365, by omega, by omega, by omega⟩
  have hparts : r = 1461 * q + 365 * k + d := by omega
  exact ⟨c, q, k, d, hc, hq, hk, hd, hparts ▸ hr, hparts ▸ hn⟩

variable {c q k d n : Nat}

theorem century_eq {r : Nat} (hr : r < 36524 ∨ r = 36524 ∧ c = 3) (hc : c ≤ 3)
    (hn : n = 36524 * c + r) : n / 36524 = c + n / 146096 := by
  rcases hr with hr | ⟨rfl, rfl⟩
  · have hzero : n / 146096 = 0 := by omega
    omega
  · omega

/-- A leap day comes after 1460 days, but for the centuries; it is counted as one of the 365 days
of its year. -/
theorem leapDays_eq (hc : c ≤ 3) (hq : q ≤ 24) (hk : k ≤ 3) (hd : d < 365 ∨ d = 365 ∧ k = 3)
    (hn : n = 1460 * (25 * c + q) + (24 * c + q + 365 * k + d)) :
    ∃ x ≤ d, d - x < 365 ∧ n / 1460 = 25 * c + q + x := by
  by_cases hlong : 24 * c + q + 365 * k + d < 1460
  · refine ⟨0, Nat.zero_le d, ?_, ?_⟩
    · rcases hd with hd | ⟨rfl, rfl⟩ <;> omega
    · clear hd
      omega
  · have hless : 24 * c + q + 365 * k + d < 2920 := by omega
    refine ⟨1, ?_, ?_, ?_⟩
    · clear hd hn
      omega
    · clear hn
      omega
    · clear hd hc hk hq
      omega

theorem yearOfEra_eq (hc : c ≤ 3) (hq : q ≤ 24) (hk : k ≤ 3) (hd : d < 365 ∨ d = 365 ∧ k = 3)
    (hr : 1461 * q + 365 * k + d < 36524 ∨ 1461 * q + 365 * k + d = 36524 ∧ c = 3)
    (hn : n = 36524 * c + (1461 * q + 365 * k + d)) :
    (n - n / 1460 + n / 36524 - n / 146096) / 365 = 100 * c + 4 * q + k := by
  have hcentury := century_eq hr hc hn
  obtain ⟨x, hx, hshort, hleap⟩ := leapDays_eq (n := n) hc hq hk hd (by omega)
  have hsum : n - n / 1460 + n / 36524 - n / 146096 =
      365 * (100 * c + 4 * q + k) + (d - x) := by
    rw [hleap, hcentury]
    clear hr hd hleap hcentury
    omega
  rw [hsum]
  omega

/-! ## Days of the calendar -/

theorem exists_ofMarch (days : Int) : ∃ (year : Int) (day : Nat), day ≤ 365 ∧
    (day = 365 → isLeapYear (year + 1) = true) ∧
    days + epochDays = daysBefore year + day ∧ Date.ofDays days = ofMarch year day := by
  obtain ⟨era, n, hn, hz⟩ : ∃ (era : Int) (n : Nat), n < 146097 ∧
      days + epochDays = era * 146097 + n :=
    ⟨(days + epochDays) / 146097, ((days + epochDays) % 146097).toNat, by omega, by omega⟩
  obtain ⟨c, q, k, d, hc, hq, hk, hd, hr, hparts⟩ := exists_parts hn
  have hyear := yearOfEra_eq hc hq hk hd hr hparts
  refine ⟨(100 * c + 4 * q + k : Nat) + era * 400, d, by omega, fun hlong => ?_, ?_, ?_⟩
  · -- The year after is the fourth of four, and not the last of a century but of the last one.
    have hk3 : k = 3 := by omega
    have hlast : q ≠ 24 ∨ c = 3 := by omega
    have hfour : ((100 * c + 4 * q + k : Nat) + era * 400 + 1) % 4 = 0 := by omega
    have hcentury : ((100 * c + 4 * q + k : Nat) + era * 400 + 1) % 100 ≠ 0 ∨
        ((100 * c + 4 * q + k : Nat) + era * 400 + 1) % 400 = 0 := by omega
    simp only [isLeapYear, Bool.and_eq_true, Bool.or_eq_true, decide_eq_true_eq]
    exact ⟨hfour, hcentury⟩
  · rw [hz, daysBefore]
    omega
  · have hera : (days + epochDays).fdiv 146097 = era := by
      rw [Int.fdiv_eq_ediv_of_nonneg _ (by decide)]
      omega
    have hin : (days + epochDays - era * 146097).toNat = n := by omega
    have hfours : (100 * c + 4 * q + k) / 4 = 25 * c + q := by omega
    have hcenturies : (100 * c + 4 * q + k) / 100 = c := by omega
    have hday : n - (365 * (100 * c + 4 * q + k) + (25 * c + q) - c) = d := by
      clear hyear hr hd
      omega
    simp only [Date.ofDays, ofMarch, hera, hin, hyear, hfours, hcenturies, hday]

theorem toDays_ofDays (days : Int) : (Date.ofDays days).toDays = days := by
  obtain ⟨year, day, hday, -, hz, hdate⟩ := exists_ofMarch days
  rw [Date.toDays, hdate, marchDays_ofMarch hday, ← hz, Int.add_sub_cancel]

theorem isValid_ofDays (days : Int) : (Date.ofDays days).isValid = true := by
  obtain ⟨year, day, hday, hleap, -, hdate⟩ := exists_ofMarch days
  rw [hdate]
  exact isValid_ofMarch hday hleap

theorem year_ofDays {days : Int} (hlow : Date.toDays ⟨firstYear, 1, 1⟩ ≤ days)
    (hhigh : days ≤ Date.toDays ⟨lastYear, 12, 31⟩) :
    firstYear ≤ (Date.ofDays days).year ∧ (Date.ofDays days).year ≤ lastYear := by
  obtain ⟨year, day, hday, -, hz, hdate⟩ := exists_ofMarch days
  have hfirst : Date.toDays ⟨firstYear, 1, 1⟩ = -96465292 := by decide
  have hlast : Date.toDays ⟨lastYear, 12, 31⟩ = 95026236 := by decide
  rw [hfirst] at hlow
  rw [hlast] at hhigh
  have hfirstMarch : daysBefore (-262144) = -95746130 := by decide
  have hlastMarch : daysBefore 262142 = 95745399 := by decide
  rw [epochDays] at hz
  rw [hdate, year_ofMarch hday, firstYear, lastYear]
  constructor
  · refine Int.not_lt.1 fun hearly => ?_
    have hle := daysBefore_le (a := year) (b := -262144) (by split at hearly <;> omega)
    split at hearly <;> omega
  · refine Int.not_lt.1 fun hlate => ?_
    have hle := daysBefore_le (a := 262142) (b := year) (by split at hlate <;> omega)
    split at hlate <;> omega

end NotificationQueue.Calendar
