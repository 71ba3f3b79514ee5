import NotificationQueue.Text.Utf8

/-!
The bytes of a text are decoded to the characters of the text. The first byte of a character tells
how many follow, and bounds the first of these so that no character has two encodings and none is
outside the characters that there are; a character keeps to the bounds that its own first byte sets.
-/
namespace NotificationQueue.Utf8
set_option autoImplicit false

variable {symbols : List (Option Char)} {p : Begun}

/-! ## Steps of the machine -/

theorem step_ascii {n : Nat} (h : n < 0x80) :
    Decoder.step ⟨symbols, none⟩ (UInt8.ofNat n) = ⟨some (Char.ofNat n) :: symbols, none⟩ := by
  have hbyte : (UInt8.ofNat n).toNat = n := UInt8.toNat_ofNat_of_lt' (show n < 256 by omega)
  rw [Decoder.step]
  dsimp only
  rw [hbyte, Decoder.start, if_pos h]

theorem step_lead {n : Nat} (hlow : 0x80 ≤ n) (hhigh : n < 0x100)
    (h : Begun.ofLead? n = some p) :
    Decoder.step ⟨symbols, none⟩ (UInt8.ofNat n) = ⟨symbols, some p⟩ := by
  have hbyte : (UInt8.ofNat n).toNat = n := UInt8.toNat_ofNat_of_lt' hhigh
  rw [Decoder.step]
  dsimp only
  rw [hbyte, Decoder.start, if_neg (by omega), h]

section

variable {owed least greatest bits n : Nat} (hn : n < 64) (hlow : least ≤ 0x80 + n)
  (hhigh : 0x80 + n ≤ greatest)

include hn hlow hhigh

theorem step_next :
    Decoder.step ⟨symbols, some ⟨owed + 2, least, greatest, bits⟩⟩ (UInt8.ofNat (0x80 + n)) =
      ⟨symbols, some ⟨owed + 1, 0x80, 0xBF, 64 * bits + n⟩⟩ := by
  have hbyte : (UInt8.ofNat (0x80 + n)).toNat = 0x80 + n :=
    UInt8.toNat_ofNat_of_lt' (show 0x80 + n < 256 by omega)
  rw [Decoder.step]
  dsimp only
  rw [hbyte, if_pos ⟨hlow, hhigh⟩, if_neg (by omega), Nat.add_sub_cancel_left]
  rfl

theorem step_last :
    Decoder.step ⟨symbols, some ⟨1, least, greatest, bits⟩⟩ (UInt8.ofNat (0x80 + n)) =
      ⟨some (Char.ofNat (64 * bits + n)) :: symbols, none⟩ := by
  have hbyte : (UInt8.ofNat (0x80 + n)).toNat = 0x80 + n :=
    UInt8.toNat_ofNat_of_lt' (show 0x80 + n < 256 by omega)
  rw [Decoder.step]
  dsimp only
  rw [hbyte, if_pos ⟨hlow, hhigh⟩, if_pos rfl, Nat.add_sub_cancel_left]

end

/-! ## First bytes -/

theorem ofLead?_two {n : Nat} (hlow : 0x80 ≤ n) (hhigh : n < 0x800) :
    Begun.ofLead? (0xC0 + n / 64) = some ⟨1, 0x80, 0xBF, n / 64⟩ := by
  rw [Begun.ofLead?, if_pos (by omega), Nat.add_sub_cancel_left]

/-- The bounds of the second byte leave out the shorter encodings and the surrogates. -/
theorem ofLead?_three {n : Nat} (hlow : 0x800 ≤ n) (hhigh : n < 0x10000)
    (hvalid : n < 0xD800 ∨ 0xDFFF < n) :
    ∃ least greatest, Begun.ofLead? (0xE0 + n / 4096) = some ⟨2, least, greatest, n / 4096⟩ ∧
      least ≤ 0x80 + n / 64 % 64 ∧ 0x80 + n / 64 % 64 ≤ greatest := by
  by_cases hfirst : n / 4096 = 0
  · rw [hfirst]
    exact ⟨0xA0, 0xBF, rfl, by omega, by omega⟩
  · by_cases hsurrogates : n / 4096 = 0xD
    · rw [hsurrogates]
      exact ⟨0x80, 0x9F, rfl, by omega, by omega⟩
    · refine ⟨0x80, 0xBF, ?_, by omega, by omega⟩
      rw [Begun.ofLead?, if_neg (by omega), if_neg (by omega), if_neg (by omega),
        if_pos (by omega), Nat.add_sub_cancel_left]

/-- The bounds of the second byte leave out the shorter encodings and what is beyond the last
character. -/
theorem ofLead?_four {n : Nat} (hlow : 0x10000 ≤ n) (hhigh : n < 0x110000) :
    ∃ least greatest, Begun.ofLead? (0xF0 + n / 262144) = some ⟨3, least, greatest, n / 262144⟩ ∧
      least ≤ 0x80 + n / 4096 % 64 ∧ 0x80 + n / 4096 % 64 ≤ greatest := by
  by_cases hfirst : n / 262144 = 0
  · rw [hfirst]
    exact ⟨0x90, 0xBF, rfl, by omega, by omega⟩
  · by_cases hlast : n / 262144 = 4
    · rw [hlast]
      exact ⟨0x80, 0x8F, rfl, by omega, by omega⟩
    · refine ⟨0x80, 0xBF, ?_, by omega, by omega⟩
      rw [Begun.ofLead?, if_neg (by omega), if_neg (by omega), if_neg (by omega),
        if_neg (by omega), if_neg (by omega), if_pos (by omega), Nat.add_sub_cancel_left]

/-! ## Characters -/

theorem ofNat_eq {n : Nat} {c : Char} (h : n = c.toNat) : Char.ofNat n = c := by
  rw [h, Char.ofNat_toNat]

theorem foldl_encodeChar (c : Char) (symbols : List (Option Char)) :
    (encodeChar c).foldl Decoder.step ⟨symbols, none⟩ = ⟨some c :: symbols, none⟩ := by
  have hvalid : c.toNat < 0xD800 ∨ 0xDFFF < c.toNat ∧ c.toNat < 0x110000 := c.valid
  unfold encodeChar
  dsimp only
  split
  · next hn =>
    rw [List.foldl_cons, List.foldl_nil, step_ascii hn, ofNat_eq rfl]
  · split
    · next hn =>
      have hlead := ofLead?_two (n := c.toNat) (by omega) hn
      rw [List.foldl_cons, List.foldl_cons, List.foldl_nil, step_lead (by omega) (by omega) hlead,
        step_last (by omega) (by omega) (by omega), ofNat_eq (c := c) (by omega)]
    · split
      · next hn =>
        obtain ⟨least, greatest, hlead, hleast, hgreatest⟩ :=
          ofLead?_three (n := c.toNat) (by omega) hn (by omega)
        rw [List.foldl_cons, List.foldl_cons, List.foldl_cons, List.foldl_nil,
          step_lead (by omega) (by omega) hlead, step_next (by omega) hleast hgreatest,
          step_last (by omega) (by omega) (by omega), ofNat_eq (c := c) (by omega)]
      · obtain ⟨least, greatest, hlead, hleast, hgreatest⟩ :=
          ofLead?_four (n := c.toNat) (by omega) (by omega)
        rw [List.foldl_cons, List.foldl_cons, List.foldl_cons, List.foldl_cons, List.foldl_nil,
          step_lead (by omega) (by omega) hlead, step_next (by omega) hleast hgreatest,
          step_next (by omega) (by omega) (by omega), step_last (by omega) (by omega) (by omega),
          ofNat_eq (c := c) (by omega)]

theorem foldl_encode (cs : List Char) (symbols : List (Option Char)) :
    (encode cs).foldl Decoder.step ⟨symbols, none⟩ = ⟨(cs.map some).reverse ++ symbols, none⟩ := by
  induction cs generalizing symbols with
  | nil => rfl
  | cons c cs ih =>
    rw [encode, List.flatMap_cons, List.foldl_append, foldl_encodeChar]
    refine (ih (some c :: symbols)).trans ?_
    simp

/-- **The bytes of a text are decoded to the text.** -/
theorem decode_encode (cs : List Char) : decode (encode cs) = cs.map some := by
  unfold decode
  rw [foldl_encode cs []]
  simp

end NotificationQueue.Utf8
