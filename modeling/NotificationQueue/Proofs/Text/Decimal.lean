import NotificationQueue.Text.Decimal

/-!
Decimal numerals read back: the digits that a number is written in denote the number, have no zero
in front, and end where something else than a digit follows.
-/
namespace NotificationQueue.Text
set_option autoImplicit false

variable {n width : Nat} {cs rest : List Char}

def digitsOf (cs : List Char) : List Nat := cs.filterMap digitValue?

theorem digitValue?_of_isDigit {c : Char} (h : c.isDigit = true) :
    digitValue? c = some (c.toNat - '0'.toNat) := if_pos h

theorem digitsOf_cons {c : Char} (h : c.isDigit = true) :
    digitsOf (c :: cs) = (c.toNat - '0'.toNat) :: digitsOf cs :=
  List.filterMap_cons_some (digitValue?_of_isDigit h)

theorem length_digitsOf (h : ∀ c ∈ cs, c.isDigit = true) : (digitsOf cs).length = cs.length := by
  induction cs with
  | nil => rfl
  | cons c cs ih =>
    have hc := h c List.mem_cons_self
    rw [digitsOf_cons hc, List.length_cons, List.length_cons,
      ih fun x hx => h x (List.mem_cons_of_mem c hx)]

theorem digitsValue_digitsOf (h : ∀ c ∈ cs, c.isDigit = true) (start : Nat) :
    digitsValue start (digitsOf cs) = Nat.ofDigitChars 10 cs start := by
  induction cs generalizing start with
  | nil => rfl
  | cons c cs ih =>
    have hc := h c List.mem_cons_self
    rw [digitsOf_cons hc]
    exact ih (fun x hx => h x (List.mem_cons_of_mem c hx)) _

theorem digitValue?_lt {c : Char} {d : Nat} (h : digitValue? c = some d) : d < 10 := by
  unfold digitValue? at h
  split at h
  · next hc =>
    have hhigh : c.toNat ≤ 57 := (Char.isDigit_iff_toNat.1 hc).2
    have hzero : '0'.toNat = 48 := rfl
    cases h
    omega
  · cases h

theorem digitsValue_lt {ds : List Nat} (h : ∀ d ∈ ds, d < 10) (start : Nat) :
    digitsValue start ds < (start + 1) * Nat.pow 10 ds.length := by
  induction ds generalizing start with
  | nil => exact Nat.lt_of_lt_of_eq (Nat.lt_succ_self start) (Nat.mul_one _).symm
  | cons d ds ih =>
    have hd : 10 * start + d + 1 ≤ (start + 1) * 10 := by
      have hten := h d List.mem_cons_self
      omega
    calc digitsValue (10 * start + d) ds
        < (10 * start + d + 1) * Nat.pow 10 ds.length :=
          ih (fun e he => h e (List.mem_cons_of_mem d he)) _
      _ ≤ (start + 1) * 10 * Nat.pow 10 ds.length := Nat.mul_le_mul_right _ hd
      _ = (start + 1) * Nat.pow 10 (ds.length + 1) := by
          rw [Nat.mul_assoc, Nat.mul_comm 10]
          rfl

/-! ## Digits in front of something else -/

theorem takeWhile_digits (h : ∀ c ∈ cs, c.isDigit = true)
    (hrest : ∀ c ∈ rest.head?, c.isDigit = false) :
    (cs ++ rest).takeWhile Char.isDigit = cs ∧ (cs ++ rest).dropWhile Char.isDigit = rest := by
  induction cs with
  | nil =>
    cases rest with
    | nil => exact ⟨rfl, rfl⟩
    | cons c rest =>
      have hc : c.isDigit = false := hrest c rfl
      simp [hc]
  | cons c cs ih =>
    have hc := h c List.mem_cons_self
    obtain ⟨htake, hdrop⟩ := ih fun x hx => h x (List.mem_cons_of_mem c hx)
    simp [hc, htake, hdrop]

/-! ## Numbers -/

theorem isDigit_decimal : ∀ c ∈ decimal n, c.isDigit = true := fun _ hc =>
  Nat.isDigit_of_mem_toDigits (by decide) (by decide) hc

theorem decimal_ne_nil : decimal n ≠ [] := Nat.toDigits_ne_nil

theorem digitsValue_decimal : digitsValue 0 (digitsOf (decimal n)) = n := by
  rw [digitsValue_digitsOf isDigit_decimal]
  exact Nat.ofDigitChars_toDigits (by decide) (by decide)

theorem head?_decimal (h : n ≠ 0) : (decimal n).head? ≠ some '0' := by
  induction n using Nat.strongRecOn with
  | ind n ih =>
    unfold decimal
    by_cases hn : n < 10
    · have hall : ∀ m : Fin 10, m.val ≠ 0 → Nat.digitChar m ≠ '0' := by decide
      rw [Nat.toDigits_of_lt_base hn]
      intro hhead
      exact hall ⟨n, hn⟩ h (Option.some.inj hhead)
    · have hfront := ih (n / 10) (by omega) (by omega)
      rw [Nat.toDigits_of_base_le (by decide) (by omega)]
      cases hd : Nat.toDigits 10 (n / 10) with
      | nil => exact absurd hd Nat.toDigits_ne_nil
      | cons c cs =>
        rw [decimal, hd] at hfront
        exact hfront

theorem decimal_zero : decimal 0 = ['0'] := by decide

/-! ## Numbers of a width -/

theorem isDigit_decimalPadded : ∀ c ∈ decimalPadded width n, c.isDigit = true := by
  intro c hc
  rcases List.mem_append.1 hc with hc | hc
  · rw [List.eq_of_mem_replicate hc]
    decide
  · exact isDigit_decimal c hc

theorem digitsValue_decimalPadded : digitsValue 0 (digitsOf (decimalPadded width n)) = n := by
  rw [digitsValue_digitsOf isDigit_decimalPadded]
  unfold decimalPadded
  have hzeros : ∀ k, Nat.ofDigitChars 10 (List.replicate k '0') 0 = 0 := by
    intro k
    induction k with
    | zero => rfl
    | succ k ih => exact ih
  dsimp only
  rw [Nat.ofDigitChars, List.foldl_append]
  change Nat.ofDigitChars 10 _ (Nat.ofDigitChars 10 _ 0) = n
  rw [hzeros]
  exact Nat.ofDigitChars_toDigits (by decide) (by decide)

theorem length_decimalPadded (hwidth : 0 < width) (h : n < Nat.pow 10 width) :
    (decimalPadded width n).length = width := by
  have hlength : (decimal n).length ≤ width := (Nat.length_toDigits_le_iff (by decide) hwidth).2 h
  simp only [decimalPadded, List.length_append, List.length_replicate]
  omega

theorem le_length_decimalPadded : width ≤ (decimalPadded width n).length := by
  simp only [decimalPadded, List.length_append, List.length_replicate]
  omega

end NotificationQueue.Text
