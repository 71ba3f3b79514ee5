import NotificationQueue.Proofs.Text.Pieces
import NotificationQueue.Token.Validation

/-!
Which tokens give access. Their claims are read twice, once for what every kind of token shares and
once for what an access token says. The first reading knows of an end only if that is a number of
seconds that is not negative, and takes it from the first item where the claims are an array; so
the claims of a token that is accepted may tell of an end long past.
-/
namespace NotificationQueue
set_option autoImplicit false

/-! ## Base 64 -/

namespace Base64

theorem exists_value?_of_mapM {a : Alphabet} {cs : List Char} {values : List Nat}
    (h : cs.mapM a.value? = some values) {c : Char} (hc : c ∈ cs) : ∃ n, a.value? c = some n := by
  induction cs generalizing values with
  | nil => cases hc
  | cons d cs ih =>
    rw [List.mapM_cons] at h
    obtain ⟨n, hn, hrest⟩ := Option.bind_eq_some_iff.1 h
    obtain ⟨ns, hns, -⟩ := Option.bind_eq_some_iff.1 hrest
    rcases List.mem_cons.1 hc with rfl | hmem
    · exact ⟨n, hn⟩
    · exact ih hns hmem

theorem point_not_mem {cs : List Char} {bytes : List UInt8}
    (h : urlSafe.decode? cs = some bytes) : '.' ∉ cs := by
  intro hmem
  obtain ⟨values, hvalues, -⟩ := Option.bind_eq_some_iff.1 h
  obtain ⟨n, hn⟩ := exists_value?_of_mapM hvalues hmem
  have hpoint : urlSafe.value? '.' = none := by decide
  rw [hpoint] at hn
  cases hn

end Base64

/-! ## Fields read twice -/

namespace Json

variable {names names' : List String} {name : String} {pieces : List Piece} {t : Tree}
  {found found' after after' : List (String × Tree)}

theorem find?_addMember (hname : name ∈ names)
    (h : Fields.addMember names found pieces t = some after) :
    ∃ k, textOfPieces? pieces = some k ∧ after.find? (·.1 = name) =
      if k = name then some (k, t) else found.find? (·.1 = name) := by
  obtain ⟨k, hk, hrest⟩ := Option.bind_eq_some_iff.1 h
  refine ⟨k, hk, ?_⟩
  split at hrest
  · split at hrest
    · cases hrest
    · cases hrest
      rw [List.find?_cons]
      by_cases hkey : k = name <;> simp [hkey]
  · next hnot =>
    cases hrest
    have hkey : k ≠ name := by
      rintro rfl
      exact hnot (List.contains_iff_mem.2 hname)
    rw [if_neg hkey]

theorem find?_addMembers (hname : name ∈ names) (hname' : name ∈ names')
    {members : List (List Piece × Tree)}
    (hsame : found.find? (·.1 = name) = found'.find? (·.1 = name))
    (h : members.foldlM (fun found (k, t) => Fields.addMember names found k t) found = some after)
    (h' : members.foldlM (fun found (k, t) => Fields.addMember names' found k t) found' =
      some after') :
    after.find? (·.1 = name) = after'.find? (·.1 = name) := by
  induction members generalizing found found' with
  | nil =>
    cases h
    cases h'
    exact hsame
  | cons m members ih =>
    rw [List.foldlM_cons] at h h'
    obtain ⟨next, hnext, hrest⟩ := Option.bind_eq_some_iff.1 h
    obtain ⟨next', hnext', hrest'⟩ := Option.bind_eq_some_iff.1 h'
    obtain ⟨k, hk, hfind⟩ := find?_addMember hname hnext
    obtain ⟨k', hk', hfind'⟩ := find?_addMember hname' hnext'
    obtain rfl : k = k' := Option.some.inj (hk.symm.trans hk')
    refine ih ?_ hrest hrest'
    rw [hfind, hfind', hsame]

theorem tree?_eq_of_object {fields fields' : List Field} {room : Nat}
    {members : List (List Piece × Tree)} {fs fs' : Fields}
    (hname : name ∈ fields.map Field.name) (hname' : name ∈ fields'.map Field.name)
    (h : fields? fields room (.object members) = some fs)
    (h' : fields? fields' room (.object members) = some fs') : fs.tree? name = fs'.tree? name := by
  cases room with
  | zero => cases h
  | succ room =>
    obtain ⟨after, hafter, rfl⟩ := Option.map_eq_some_iff.1 h
    obtain ⟨after', hafter', rfl⟩ := Option.map_eq_some_iff.1 h'
    have hfind := find?_addMembers hname hname' rfl hafter hafter'
    exact congrArg (Option.map Prod.snd) hfind

theorem decodeWord_of_decodeSigned {room room' : Nat} {e : Int}
    (h : decodeSigned room t = some e) :
    decodeWord room' t = if 0 ≤ e then some e.toNat else none := by
  unfold decodeSigned decodeInt at h
  split at h
  · next n =>
    split at h
    · next i hi =>
      split at h
      · next hrange =>
        cases h
        unfold decodeWord decodeInt
        simp only [hi]
        have hwide : (Text.maxSigned64 : Int) ≤ Text.maxWord64 := by decide
        by_cases h0 : 0 ≤ e
        · have hin : 0 ≤ e ∧ e ≤ Text.maxWord64 := ⟨h0, Int.le_trans hrange.2 hwide⟩
          rw [if_pos hin, if_pos h0]
          rfl
        · have hout : ¬ (0 ≤ e ∧ e ≤ Text.maxWord64) := fun hin => h0 hin.1
          rw [if_neg hout, if_neg h0]
          rfl
      · cases h
    · cases h
  · cases h

theorem of_decodeNullable {α : Type} {decode : Decode α} {room : Nat} {x : Option α}
    (h : decodeNullable decode room t = some x) :
    (t = .null ∧ x = none) ∨ ∃ v, decode room t = some v ∧ x = some v := by
  unfold decodeNullable at h
  split at h
  · exact .inl ⟨rfl, (Option.some.inj h).symm⟩
  · obtain ⟨v, hv, hx⟩ := Option.map_eq_some_iff.1 h
    exact .inr ⟨v, hv, hx.symm⟩

end Json

namespace Token

open Json

variable {room : Nat} {t : Tree} {claims : Claims} {registered : Registered}

/-! ## Two readings of the end -/

theorem Claims.of_decode (h : Claims.decode room t = some claims) :
    ∃ fs, fields? Claims.fields room t = some fs ∧
      fs.required "sub" decodeText = some claims.subject ∧
      fs.nullable "exp" decodeSigned = some claims.expiry := by
  obtain ⟨fs, hfs, h⟩ := Option.bind_eq_some_iff.1 h
  obtain ⟨subject, hsubject, h⟩ := Option.bind_eq_some_iff.1 h
  obtain ⟨type, -, h⟩ := Option.bind_eq_some_iff.1 h
  obtain ⟨role, -, h⟩ := Option.bind_eq_some_iff.1 h
  obtain ⟨expiry, hexpiry, h⟩ := Option.bind_eq_some_iff.1 h
  obtain ⟨issuedAt, -, h⟩ := Option.bind_eq_some_iff.1 h
  cases h
  exact ⟨fs, hfs, hsubject, hexpiry⟩

theorem Registered.of_decode (h : Registered.decode room t = some registered) :
    ∃ fs, fields? Registered.fields room t = some fs ∧
      registered.expiry = (fs.tree? "exp").bind (decodeWord fs.room) := by
  obtain ⟨fs, hfs, h⟩ := Option.bind_eq_some_iff.1 h
  obtain ⟨-, -, h⟩ := Option.bind_eq_some_iff.1 h
  obtain ⟨-, -, h⟩ := Option.bind_eq_some_iff.1 h
  obtain ⟨-, -, h⟩ := Option.bind_eq_some_iff.1 h
  obtain ⟨hasAudience, -, h⟩ := Option.bind_eq_some_iff.1 h
  cases h
  exact ⟨fs, hfs, rfl⟩

/-- In an object the first reading has the end that the second one has, unless that is negative. -/
theorem expiry_of_object {members : List (List Piece × Tree)}
    (hc : Claims.decode room (.object members) = some claims)
    (hr : Registered.decode room (.object members) = some registered) :
    registered.expiry = (claims.expiry.filter (0 ≤ ·)).map Int.toNat := by
  obtain ⟨fs, hfs, -, hexpiry⟩ := Claims.of_decode hc
  obtain ⟨fs', hfs', hexpiry'⟩ := Registered.of_decode hr
  have htree : fs.tree? "exp" = fs'.tree? "exp" :=
    tree?_eq_of_object (by decide) (by decide) hfs hfs'
  rw [hexpiry', ← htree]
  unfold Fields.nullable Fields.orElse at hexpiry
  cases he : fs.tree? "exp" with
  | none =>
    rw [he] at hexpiry
    rw [← Option.some.inj hexpiry]
    rfl
  | some t =>
    rw [he] at hexpiry
    rw [Option.bind_some]
    rcases of_decodeNullable hexpiry with ⟨rfl, hnone⟩ | ⟨e, hsigned, hsome⟩
    · rw [hnone]
      rfl
    · rw [hsome, decodeWord_of_decodeSigned hsigned, Option.filter_some]
      by_cases h0 : 0 ≤ e
      · simp [h0]
      · simp [h0]

/-- In an array the first reading takes the first item for the end, and the second one wants a text
there. -/
theorem expiry_of_array {items : List Tree} (hc : Claims.decode room (.array items) = some claims)
    (hr : Registered.decode room (.array items) = some registered) :
    registered.expiry = none := by
  obtain ⟨fs, hfs, hsubject, -⟩ := Claims.of_decode hc
  obtain ⟨fs', hfs', hexpiry⟩ := Registered.of_decode hr
  rw [hexpiry]
  cases room with
  | zero => cases hfs
  | succ room =>
    obtain ⟨found, hfound, rfl⟩ := Option.map_eq_some_iff.1 hfs
    obtain ⟨found', hfound', rfl⟩ := Option.map_eq_some_iff.1 hfs'
    cases items with
    | nil => cases hfound'
    | cons t items =>
      obtain ⟨rest, -, rfl⟩ := Option.map_eq_some_iff.1 hfound
      obtain ⟨rest', -, rfl⟩ := Option.map_eq_some_iff.1 hfound'
      have htext : decodeText room t = some claims.subject := hsubject
      have hword : ((⟨room, ("exp", t) :: rest'⟩ : Fields).tree? "exp").bind (decodeWord room) =
          decodeWord room t := rfl
      cases t with
      | text pieces => exact hword
      | _ => cases htext

theorem Claims.object_or_array (h : Claims.decode room t = some claims) :
    (∃ members, t = .object members) ∨ ∃ items, t = .array items := by
  obtain ⟨fs, hfs, -⟩ := Claims.of_decode h
  cases t with
  | object members => exact .inl ⟨members, rfl⟩
  | array items => exact .inr ⟨items, rfl⟩
  | _ => cases room <;> cases hfs

theorem hasEnded_iff (hc : Claims.decode room t = some claims)
    (hr : Registered.decode room t = some registered) (second : Int) :
    hasEnded registered second = true ↔
      (∃ members, t = .object members) ∧
        ∃ e, claims.expiry = some e ∧ 0 ≤ e ∧ e < second - leeway := by
  rcases Claims.object_or_array hc with ⟨members, rfl⟩ | ⟨items, rfl⟩
  · rw [hasEnded, expiry_of_object hc hr]
    cases claims.expiry with
    | none => simp
    | some e =>
      by_cases h0 : 0 ≤ e
      · simp [Option.filter_some, h0, Int.toNat_of_nonneg h0]
      · simp [Option.filter_some, h0]
  · rw [hasEnded, expiry_of_array hc hr]
    simp

/-! ## Tokens that are accepted -/

theorem digest?_eq_some {algorithm : Algorithm} {digest : Digest.Sha2} :
    algorithm.digest? = some digest ↔
      (algorithm, digest) ∈ [(Algorithm.hs256, Digest.sha256), (Algorithm.hs384, Digest.sha384),
        (Algorithm.hs512, Digest.sha512)] := by
  cases algorithm <;> simp [Algorithm.digest?, eq_comm]

/-- A token has three parts: a header that names a keyed digest, a payload, and that digest of these
two under the secret. -/
def IsSigned (secret : List UInt8) (token : String) (payload : List Char) : Prop :=
  ∃ header signature algorithm digest,
    token.toList = header ++ '.' :: (payload ++ '.' :: signature) ∧
    '.' ∉ header ∧ '.' ∉ payload ∧ '.' ∉ signature ∧
    read? decodeHeader header = some algorithm ∧
    (algorithm, digest) ∈ [(Algorithm.hs256, Digest.sha256), (Algorithm.hs384, Digest.sha384),
      (Algorithm.hs512, Digest.sha512)] ∧
    signature = sign digest secret (header ++ '.' :: payload)

theorem point_not_mem_of_read? {α : Type} {decode : Decode α} {cs : List Char} {x : α}
    (h : read? decode cs = some x) : '.' ∉ cs := by
  obtain ⟨t, ht, -⟩ := Option.bind_eq_some_iff.1 h
  obtain ⟨bytes, hbytes, -⟩ := Option.bind_eq_some_iff.1 ht
  exact Base64.point_not_mem hbytes

theorem validate_eq_ok {secret : List UInt8} {wall : Score} {token : String}
    (h : validate secret wall token = .ok claims) :
    ∃ message header payload signature algorithm digest registered,
      Text.splitLast '.' token.toList = some (message, signature) ∧
      Text.splitLast '.' message = some (header, payload) ∧
      read? decodeHeader header = some algorithm ∧ algorithm.digest? = some digest ∧
      sign digest secret message = signature ∧ read? Claims.decode payload = some claims ∧
      read? Registered.decode payload = some registered ∧
      hasEnded registered (secondOf wall) = false ∧ registered.hasAudience = false ∧
      claims.type = Claims.accessType := by
  unfold validate at h
  split at h
  · cases h
  · next message signature hlast =>
    split at h
    · cases h
    · next header payload hmessage =>
      split at h
      · cases h
      · next algorithm hheader =>
        split at h
        · cases h
        · next digest hdigest =>
          split at h
          · cases h
          · next hsigned =>
            split at h
            · next claims' registered hc hr =>
              split at h
              · cases h
              · next hended =>
                split at h
                · cases h
                · next haudience =>
                  split at h
                  · cases h
                  · next htype =>
                    cases h
                    exact ⟨message, header, payload, signature, algorithm, digest, registered,
                      hlast, hmessage, hheader, hdigest, Decidable.not_not.1 hsigned, hc, hr,
                      Bool.eq_false_iff.2 hended, Bool.eq_false_iff.2 haudience,
                      Decidable.not_not.1 htype⟩
            · cases h

/-- **A token is accepted just if it is signed with the secret, names no audience, is an access
token, and has not ended** as far as its claims are an object and tell of an end that is not
negative. -/
theorem validate_eq_ok_iff (secret : List UInt8) (wall : Score) (token : String)
    (claims : Claims) :
    validate secret wall token = .ok claims ↔
      ∃ payload t registered, IsSigned secret token payload ∧ tree? payload = some t ∧
        Claims.decode maxNesting t = some claims ∧ claims.type = Claims.accessType ∧
        Registered.decode maxNesting t = some registered ∧ registered.hasAudience = false ∧
        ((∃ members, t = .object members) →
          ∀ e, claims.expiry = some e → 0 ≤ e → secondOf wall - leeway ≤ e) := by
  constructor
  · intro h
    obtain ⟨message, header, payload, signature, algorithm, digest, registered, hlast, hmessage,
      hheader, hdigest, hsigned, hc, hr, hended, haudience, htype⟩ := validate_eq_ok h
    obtain ⟨htoken, hsignature⟩ := Text.of_splitLast hlast
    obtain ⟨rfl, hpayload⟩ := Text.of_splitLast hmessage
    obtain ⟨t, ht, hc⟩ := Option.bind_eq_some_iff.1 hc
    obtain ⟨t', ht', hr⟩ := Option.bind_eq_some_iff.1 hr
    -- Both readings are of one payload, and so of one tree.
    obtain rfl : t = t' := Option.some.inj (ht.symm.trans ht')
    refine ⟨payload, t, registered, ?_, ht, hc, htype, hr, haudience, ?_⟩
    · refine ⟨header, signature, algorithm, digest, ?_, point_not_mem_of_read? hheader, hpayload,
        hsignature, hheader, digest?_eq_some.1 hdigest, hsigned.symm⟩
      rw [htoken, List.append_assoc]
      rfl
    · intro hobject e he h0
      refine Int.not_lt.1 fun hlate => Bool.eq_false_iff.1 hended ?_
      exact (hasEnded_iff hc hr _).2 ⟨hobject, e, he, h0, hlate⟩
  · rintro ⟨payload, t, registered, ⟨header, signature, algorithm, digest, htoken, -, hpayload,
      hsignature, hheader, hdigest, hsigned⟩, ht, hc, htype, hr, haudience, hlive⟩
    have hlast : Text.splitLast '.' token.toList = some (header ++ '.' :: payload, signature) := by
      rw [htoken, ← List.cons_append, ← List.append_assoc]
      exact Text.splitLast_append hsignature
    have hmessage : Text.splitLast '.' (header ++ '.' :: payload) = some (header, payload) :=
      Text.splitLast_append hpayload
    have hended : hasEnded registered (secondOf wall) = false := by
      refine Bool.eq_false_iff.2 fun hended => ?_
      obtain ⟨hobject, e, he, h0, hlate⟩ := (hasEnded_iff hc hr _).1 hended
      exact absurd (hlive hobject e he h0) (Int.not_le.2 hlate)
    have hclaims : read? Claims.decode payload = some claims := by
      rw [read?, ht, Option.bind_some, hc]
    have hregistered : read? Registered.decode payload = some registered := by
      rw [read?, ht, Option.bind_some, hr]
    have hkeyed := digest?_eq_some.2 hdigest
    simp [validate, hlast, hmessage, hheader, hkeyed, hsigned, hclaims, hregistered, hended,
      haudience, htype]

/-- A token of a user, signed with a short key, that ended a second before the epoch. -/
def endedToken : String :=
  "eyJ0eXAiOiJKV1QiLCJhbGciOiJIUzI1NiJ9." ++
    "eyJzdWIiOiJVMSIsInR5cGUiOiJhY2Nlc3NfdG9rZW4iLCJyb2xlIjoiQ1VTVE9NRVIiLCJleHAiOi0xfQ." ++
    "7_Qk01eAUu2ZPIU2UWfLZdhW0PCuSMIqC7hxdex-KgU"

/-- A token that ended a second before the epoch is accepted in 2023. -/
theorem accepted_after_end :
    ¬ ∀ (secret : List UInt8) (wall : Score) (token : String) (claims : Claims),
      60000000 ≤ wall → validate secret wall token = .ok claims →
      ∀ e, claims.expiry = some e → secondOf wall - leeway ≤ e := by
  intro hall
  have hok : (validate (Utf8.encode ['k', '3', 'y']) 1700000000000000 endedToken).toOption =
      some ⟨"U1", "access_token", "CUSTOMER", some (-1), none⟩ := by decide +kernel
  cases hresult : validate (Utf8.encode ['k', '3', 'y']) 1700000000000000 endedToken with
  | error refusal =>
    rw [hresult] at hok
    cases hok
  | ok claims =>
    rw [hresult] at hok
    obtain rfl := Option.some.inj hok
    exact absurd (hall _ _ _ _ (by decide) hresult (-1) rfl) (by decide)

end Token

end NotificationQueue
