import NotificationQueue.Proofs.Base64
import NotificationQueue.Proofs.Text.Utf8
import NotificationQueue.Proofs.Token.Validation
import NotificationQueue.Proofs.Wire

/-!
Tokens that are issued hold. Each part of one is read as the value that was written, the signature
is the one that is computed again, and both readings of the claims find the same end; so a token is
accepted with the claims that it was issued for until its end is past by more than the leeway, and
is told as expired from then on.
-/
namespace NotificationQueue.Token
set_option autoImplicit false

open Json

variable {room : Nat} {c : Claims}

/-! ## Parts -/

theorem tree?_part {v : Json} (hv : v.IsExact) : tree? (part v) = some (tree v) := by
  have hread := read?_write hv
  rw [Json.read?, write, String.toList_ofList] at hread
  rw [tree?, part, Base64.decode?_encode, Option.bind_some, Utf8.decode_encode, hread]

theorem read?_part {α : Type} (decode : Decode α) {v : Json} (hv : v.IsExact) :
    read? decode (part v) = decode maxNesting (tree v) := by
  rw [read?, tree?_part hv, Option.bind_some]

theorem point_not_mem_part (v : Json) : '.' ∉ part v :=
  Base64.point_not_mem (Base64.decode?_encode _)

theorem point_not_mem_sign (digest : Digest.Sha2) (secret : List UInt8) (message : List Char) :
    '.' ∉ sign digest secret message :=
  Base64.point_not_mem (Base64.decode?_encode _)

theorem read?_issuedHeader : read? decodeHeader (part issuedHeader) = some .hs256 := by
  have hexact : issuedHeader.IsExact := ⟨by decide, trivial, trivial, trivial⟩
  rw [read?_part decodeHeader hexact]
  decide +kernel

/-! ## The first reading of the claims -/

/-- What the first reading finds in claims that were written: no audience, and the end unless that
is negative. -/
def Claims.registered (c : Claims) : Registered where
  expiry := (c.expiry.filter (0 ≤ ·)).map Int.toNat
  hasAudience := false

theorem skipValue_text (s : String) : Registered.skipValue room (tree (.str s)) = some () := by
  rw [tree, Registered.skipValue, decodeValue, textOfPieces?_piecesOf]
  · rfl
  · nofun

theorem bind_decodeWord_expiry (h : c.IsHeld) :
    ((c.expiry.map Json.int).map tree).bind (decodeWord room) = c.registered.expiry := by
  rw [Claims.registered]
  cases he : c.expiry with
  | none => rfl
  | some n =>
    have hsigned : decodeSigned room (tree (.int n)) = some n := decodeSigned_tree (h.expiry n he)
    rw [Option.map_some, Option.map_some, Option.bind_some, decodeWord_of_decodeSigned hsigned,
      Option.filter_some]
    by_cases h0 : 0 ≤ n <;> simp [h0]

theorem Registered.decode_tree (h : c.IsHeld) :
    Registered.decode (room + 1) (tree c.toJson) = some c.registered := by
  rw [decode, Claims.toJson]
  refine bind_fields?_known_record (by simp) fun fs hholds => ?_
  have hend : (fs.tree? "exp").bind (decodeWord fs.room) = c.registered.expiry := by
    rw [hholds.room, hholds.tree?, lookup_known (by decide), lookup_present_cons_of_ne (by decide),
      lookup_present_cons_of_ne (by decide), lookup_present_cons_of_ne (by decide),
      lookup_present_cons_self (by simp), bind_decodeWord_expiry h]
  have hnone (name : String) : lookup name (present []) = none := rfl
  simp [hholds.orElse, lookup_known, fields, lookup_present_cons_of_ne, lookup_present_cons_self,
    hnone, skipValue_text, hend]
  rfl

/-! ## Tokens that are issued -/

theorem validate_issue (h : c.IsHeld) (htype : c.type = Claims.accessType) (secret : List UInt8)
    (wall : Score) : validate secret wall (issue secret c) =
      if hasEnded c.registered (secondOf wall) then .error .expired else .ok c := by
  have hexact := Claims.isExact_toJson h
  have hclaims : read? Claims.decode (part c.toJson) = some c :=
    (read?_part Claims.decode hexact).trans (Claims.decode_tree h)
  have hregistered : read? Registered.decode (part c.toJson) = some c.registered :=
    (read?_part Registered.decode hexact).trans (Registered.decode_tree h)
  rw [validate, issue, String.toList_ofList, Text.splitLast_append (point_not_mem_sign _ _ _)]
  dsimp only
  rw [Text.splitLast_append (point_not_mem_part _)]
  dsimp only
  rw [read?_issuedHeader]
  dsimp only [Algorithm.digest?]
  rw [if_neg (fun h => h rfl), hclaims, hregistered]
  dsimp only
  split
  · rfl
  · rw [htype, if_neg (show ¬ c.registered.hasAudience = true from Bool.false_ne_true),
      if_neg (fun hne => hne rfl)]

theorem isHeld_grantedClaims {user role : String} {now lifetime : Int}
    (hissued : IsSigned64 (Int.fdiv now Duration.perSecond))
    (hend : IsSigned64 (Int.fdiv (now + lifetime) Duration.perSecond)) :
    (grantedClaims user role now lifetime).IsHeld := by
  constructor
  · intro n hn
    cases hn
    exact hend
  · intro n hn
    cases hn
    exact hissued

theorem hasEnded_registered {e : Int} (he : c.expiry = some e) (h0 : 0 ≤ e) (second : Int) :
    hasEnded c.registered second = decide (e < second - leeway) := by
  have hkept : c.registered.expiry = some e.toNat := by
    simp [Claims.registered, he, Option.filter_some, h0]
  rw [hasEnded, hkept]
  dsimp only
  rw [Int.toNat_of_nonneg h0]

/-- **A token is accepted as it was issued until its end is past by more than the leeway.** This is
so for any secret, user and role, and for any time of issue and lifetime, in nanoseconds, whose
seconds fit the claims, if the end is not negative; later the token is told as expired. -/
theorem issued_accepted_until_end (secret : List UInt8) (user role : String) (now lifetime : Int)
    (hissued : IsSigned64 (Int.fdiv now Duration.perSecond))
    (hend : IsSigned64 (Int.fdiv (now + lifetime) Duration.perSecond))
    (h0 : 0 ≤ Int.fdiv (now + lifetime) Duration.perSecond) (wall : Score) :
    let token := issue secret (grantedClaims user role now lifetime)
    let expiry := Int.fdiv (now + lifetime) Duration.perSecond
    (secondOf wall - 60 ≤ expiry → validate secret wall token =
      .ok { subject := user, type := "access_token", role := role, expiry := some expiry,
            issuedAt := some (Int.fdiv now Duration.perSecond) }) ∧
    (expiry < secondOf wall - 60 → validate secret wall token = .error .expired) := by
  intro token expiry
  have hresult := validate_issue (isHeld_grantedClaims hissued hend) rfl secret wall
    (c := grantedClaims user role now lifetime)
  rw [hasEnded_registered (e := expiry) rfl h0] at hresult
  constructor
  · intro hin
    have hopen : ¬ expiry < secondOf wall - leeway := Int.not_lt.2 hin
    rw [decide_eq_false hopen] at hresult
    exact hresult
  · intro hpast
    have hpast' : expiry < secondOf wall - leeway := hpast
    rw [decide_eq_true hpast'] at hresult
    exact hresult

/-- A token whose lifetime of a nanosecond ends with a second. -/
theorem issued_accepted_through_leeway :
    let user := "Jos\u00e9 \"x\"\n\x00"
    let token := issue [] (grantedClaims user "" 1700000000999999999 1)
    validate [] 1700000061999999 token =
      .ok ⟨user, "access_token", "", some 1700000001, some 1700000000⟩ ∧
    validate [] 1700000062000000 token = .error .expired := by
  intro user token
  have hholds := issued_accepted_until_end [] user "" 1700000000999999999 1
    ⟨by decide, by decide⟩ ⟨by decide, by decide⟩ (by decide)
  exact ⟨(hholds 1700000061999999).1 (by decide), (hholds 1700000062000000).2 (by decide)⟩

end NotificationQueue.Token
