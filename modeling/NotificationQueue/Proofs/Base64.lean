import NotificationQueue.Base64

/-!
Bytes written in base 64 are read as the same bytes, in the alphabet for addresses. Between bytes
and characters stand six-bit values: a group of three bytes makes four of them, and the bits that a
shorter group at the end does not fill are zero.
-/
namespace NotificationQueue.Base64
set_option autoImplicit false

def sextets : List UInt8 → List Nat
  | [] => []
  | [x] => [x.toNat / 4, x.toNat % 4 * 16]
  | [x, y] =>
    let n := 256 * x.toNat + y.toNat
    [n / 1024, n / 16 % 64, n % 16 * 4]
  | x :: y :: z :: rest =>
    let n := 65536 * x.toNat + 256 * y.toNat + z.toNat
    n / 262144 :: n / 4096 % 64 :: n / 64 % 64 :: n % 64 :: sextets rest

theorem encode_urlSafe (bytes : List UInt8) :
    urlSafe.encode bytes = (sextets bytes).map urlSafe.char := by
  induction bytes using sextets.induct with
  | case1 | case2 | case3 => rfl
  | case4 x y z rest ih =>
    rw [Alphabet.encode, ih]
    rfl

theorem sextets_lt (bytes : List UInt8) : ∀ n ∈ sextets bytes, n < 64 := by
  induction bytes using sextets.induct with
  | case1 => nofun
  | case2 x =>
    have hx := x.toNat_lt
    simp only [sextets, List.forall_mem_cons]
    exact ⟨by omega, by omega, nofun⟩
  | case3 x y =>
    have hx := x.toNat_lt
    have hy := y.toNat_lt
    simp only [sextets, List.forall_mem_cons]
    exact ⟨by omega, by omega, by omega, nofun⟩
  | case4 x y z rest ih =>
    have hx := x.toNat_lt
    have hy := y.toNat_lt
    have hz := z.toNat_lt
    simp only [sextets, List.forall_mem_cons]
    exact ⟨by omega, by omega, by omega, by omega, ih⟩

theorem value?_char {n : Nat} (h : n < 64) : urlSafe.value? (urlSafe.char n) = some n := by
  have hall : ∀ i : Fin 64, urlSafe.value? (urlSafe.char i) = some i.val := by decide +kernel
  exact hall ⟨n, h⟩

theorem mapM_value?_char {values : List Nat} (h : ∀ n ∈ values, n < 64) :
    (values.map urlSafe.char).mapM urlSafe.value? = some values := by
  induction values with
  | nil => rfl
  | cons n values ih =>
    obtain ⟨hn, hvalues⟩ := List.forall_mem_cons.1 h
    rw [List.map_cons, List.mapM_cons, value?_char hn, ih hvalues]
    rfl

theorem ofNat_eq {n : Nat} {x : UInt8} (h : n = x.toNat) : UInt8.ofNat n = x := by
  rw [h, UInt8.ofNat_toNat]

theorem bytesOfValues?_sextets (bytes : List UInt8) :
    bytesOfValues? (sextets bytes) = some bytes := by
  induction bytes using sextets.induct with
  | case1 => rfl
  | case2 x =>
    have hx := x.toNat_lt
    rw [sextets, bytesOfValues?, if_pos (by omega), ofNat_eq (x := x) (by omega)]
  | case3 x y =>
    have hx := x.toNat_lt
    have hy := y.toNat_lt
    rw [sextets, bytesOfValues?, if_pos (by omega), ofNat_eq (x := x) (by omega),
      ofNat_eq (x := y) (by omega)]
  | case4 x y z rest ih =>
    have hx := x.toNat_lt
    have hy := y.toNat_lt
    have hz := z.toNat_lt
    rw [sextets, bytesOfValues?, ih, Option.map_some, ofNat_eq (x := x) (by omega),
      ofNat_eq (x := y) (by omega), ofNat_eq (x := z) (by omega)]

/-- **What is written is read as it was.** -/
theorem decode?_encode (bytes : List UInt8) :
    urlSafe.decode? (urlSafe.encode bytes) = some bytes := by
  rw [Alphabet.decode?, encode_urlSafe]
  show ((((sextets bytes).map urlSafe.char).mapM urlSafe.value?).bind bytesOfValues?) = some bytes
  rw [mapM_value?_char (sextets_lt bytes), Option.bind_some, bytesOfValues?_sextets]

end NotificationQueue.Base64
