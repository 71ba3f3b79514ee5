import NotificationQueue.Proofs.Http.Rejection
import NotificationQueue.Proofs.Text.Pieces

/-!
Which token is judged. A header, a query and cookies can each offer one; that of the first of them
that does is judged, and its verdict is the verdict on the request, whatever the others offer.
-/
namespace NotificationQueue
set_option autoImplicit false

namespace Access

variable {settings : AccessSettings} {wall : Score} {r : Http.Request} {token : String}

/-! ## Firsts and lasts -/

theorem find?_filterMap_eq_some {α β : Type} {l : List α} {f : α → Option β} {p : β → Bool}
    {b : β} : (l.filterMap f).find? p = some b ↔ p b = true ∧ ∃ before a after,
      l = before ++ a :: after ∧ f a = some b ∧
      ∀ x ∈ before, ∀ y, f x = some y → p y = false := by
  rw [List.find?_filterMap, Option.bind_eq_some_iff]
  constructor
  · rintro ⟨a, hfind, hb⟩
    obtain ⟨hmatch, before, after, hl, hbefore⟩ := List.find?_eq_some_iff_append.1 hfind
    rw [hb] at hmatch
    refine ⟨hmatch, before, a, after, hl, hb, fun x hx y hy => ?_⟩
    have hnot := hbefore x hx
    rw [hy] at hnot
    simpa using hnot
  · rintro ⟨hmatch, before, a, after, hl, hb, hbefore⟩
    refine ⟨a, List.find?_eq_some_iff_append.2 ⟨by rwa [hb], before, after, hl, fun x hx => ?_⟩, hb⟩
    cases hy : f x with
    | none => rfl
    | some y =>
      have hnot := hbefore x hx y hy
      simpa using hnot

/-! ## Sources of tokens -/

inductive Source where
  | header
  | query
  | cookie
  deriving DecidableEq

def Source.rank : Source → Nat
  | .header => 0
  | .query => 1
  | .cookie => 2

theorem Source.rank_injective : Function.Injective Source.rank := by
  intro source source' h
  cases source <;> cases source' <;> first | rfl | cases h

/-- The source offers a token: the first `authorization` header, if it is a text of two words of
which the first is `bearer`; the first pair of the query that is named for the token, or the last
such cookie, if their values are not empty. -/
def Source.Offers (r : Http.Request) (token : String) : Source → Prop
  | .header => ∃ value scheme, r.headers.text? "authorization" = some value ∧
      (value.toList.splitOnP Text.isBlank).filter (· ≠ []) = [scheme, token.toList] ∧
      scheme.map Char.toLower = "bearer".toList
  | .query => token ≠ "" ∧ ∃ query before after, r.uri.query = some query ∧
      query.toList.splitOn '&' = before ++ (tokenName.toList ++ '=' :: token.toList) :: after ∧
      ∀ piece ∈ before, ¬ tokenName.toList ++ ['='] <+: piece
  | .cookie => token ≠ "" ∧ ∃ before piece after,
      (r.headers.texts "cookie").flatMap (fun v => v.toList.splitOn ';') =
        before ++ piece :: after ∧
      cookie? piece = some (tokenName, token) ∧
      ∀ later ∈ after, ∀ value, cookie? later ≠ some (tokenName, value)

def Source.offered? (r : Http.Request) : Source → Option String
  | .header => (r.headers.text? "authorization").bind bearerToken?
  | .query => r.uri.query.bind queryToken?
  | .cookie => cookieToken? (r.headers.texts "cookie")

theorem bearerToken?_eq_some {value : String} : bearerToken? value = some token ↔
    ∃ scheme, (value.toList.splitOnP Text.isBlank).filter (· ≠ []) = [scheme, token.toList] ∧
      scheme.map Char.toLower = "bearer".toList := by
  unfold bearerToken?
  rw [Text.words_eq]
  constructor
  · intro h
    split at h
    · next scheme word hwords =>
      split at h
      · next hscheme =>
        cases h
        exact ⟨scheme, by rw [hwords, String.toList_ofList], hscheme⟩
      · cases h
    · cases h
  · rintro ⟨scheme, hwords, hscheme⟩
    rw [hwords]
    dsimp only
    rw [if_pos hscheme, String.ofList_toList]

theorem splitFirst_tokenName {piece value : List Char} :
    Text.splitFirst '=' piece = some (tokenName.toList, value) ↔
      piece = tokenName.toList ++ '=' :: value := by
  constructor
  · exact fun h => (Text.of_splitFirst h).1
  · rintro rfl
    exact Text.splitFirst_append (by decide)

theorem queryToken?_eq_some {query : String} : queryToken? query = some token ↔
    token ≠ "" ∧ ∃ before after,
      query.toList.splitOn '&' = before ++ (tokenName.toList ++ '=' :: token.toList) :: after ∧
      ∀ piece ∈ before, ¬ tokenName.toList ++ ['='] <+: piece := by
  unfold queryToken?
  rw [Option.filter_eq_some_iff, Option.map_eq_some_iff, Text.splitAll_eq_splitOn]
  constructor
  · rintro ⟨⟨⟨name, value⟩, hfind, rfl⟩, hne⟩
    obtain ⟨hname, before, piece, after, hpieces, hpiece, hbefore⟩ :=
      find?_filterMap_eq_some.1 hfind
    obtain rfl : name = tokenName.toList := by simpa using hname
    obtain rfl := splitFirst_tokenName.1 hpiece
    refine ⟨by simpa using hne, before, after, by rw [hpieces, String.toList_ofList], ?_⟩
    rintro x hx ⟨rest, rfl⟩
    have hnot := hbefore _ hx (tokenName.toList, rest) (splitFirst_tokenName.2 (by simp))
    simp at hnot
  · rintro ⟨hne, before, after, hpieces, hbefore⟩
    refine ⟨⟨(tokenName.toList, token.toList), find?_filterMap_eq_some.2 ?_,
      String.ofList_toList⟩, by simpa using hne⟩
    refine ⟨by simp, before, _, after, hpieces, splitFirst_tokenName.2 rfl, ?_⟩
    rintro x hx ⟨name, rest⟩ hsplit
    refine decide_eq_false fun hname => hbefore x hx ⟨rest, ?_⟩
    obtain rfl : name = tokenName.toList := hname
    rw [splitFirst_tokenName.1 hsplit]
    simp

theorem cookieToken?_eq_some {values : List String} : cookieToken? values = some token ↔
    token ≠ "" ∧ ∃ before piece after,
      values.flatMap (fun v => v.toList.splitOn ';') = before ++ piece :: after ∧
      cookie? piece = some (tokenName, token) ∧
      ∀ later ∈ after, ∀ value, cookie? later ≠ some (tokenName, value) := by
  have hsplit : (fun v : String => Text.splitAll ';' v.toList) = fun v => v.toList.splitOn ';' :=
    funext fun v => Text.splitAll_eq_splitOn ';' v.toList
  unfold cookieToken?
  rw [Option.filter_eq_some_iff, Option.map_eq_some_iff, hsplit, ← List.filterMap_reverse]
  -- The last cookie is the first of them in reverse.
  constructor
  · rintro ⟨⟨⟨name, value⟩, hfind, rfl⟩, hne⟩
    obtain ⟨hname, after, piece, before, hpieces, hpiece, hafter⟩ :=
      find?_filterMap_eq_some.1 hfind
    obtain rfl : name = tokenName := by simpa using hname
    refine ⟨by simpa using hne, before.reverse, piece, after.reverse, ?_, hpiece, ?_⟩
    · rw [List.reverse_eq_iff.1 hpieces]
      simp
    · intro later hlater value' hvalue'
      have hnot := hafter later (List.mem_reverse.1 hlater) _ hvalue'
      simp at hnot
  · rintro ⟨hne, before, piece, after, hpieces, hpiece, hafter⟩
    refine ⟨⟨(tokenName, token), find?_filterMap_eq_some.2 ?_, rfl⟩, by simpa using hne⟩
    refine ⟨by simp, after.reverse, piece, before.reverse, ?_, hpiece, ?_⟩
    · rw [hpieces]
      simp
    · rintro later hlater ⟨name, value⟩ hlater'
      refine decide_eq_false fun hname => ?_
      obtain rfl : name = tokenName := hname
      exact hafter later (List.mem_reverse.1 hlater) value hlater'

theorem Source.offered?_eq_some {source : Source} :
    source.offered? r = some token ↔ source.Offers r token := by
  cases source with
  | header =>
    simp only [offered?, Offers, Option.bind_eq_some_iff, bearerToken?_eq_some, exists_and_left]
  | query =>
    simp only [offered?, Offers, Option.bind_eq_some_iff, queryToken?_eq_some]
    constructor
    · rintro ⟨query, hquery, hne, before, after, hpieces⟩
      exact ⟨hne, query, before, after, hquery, hpieces⟩
    · rintro ⟨hne, query, before, after, hquery, hpieces⟩
      exact ⟨query, hquery, hne, before, after, hpieces⟩
  | cookie => exact cookieToken?_eq_some

/-! ## The token that is judged -/

def Judges (r : Http.Request) (source : Source) (token : String) : Prop :=
  source.Offers r token ∧
    ∀ earlier : Source, earlier.rank < source.rank → ∀ other, ¬ earlier.Offers r other

theorem Source.not_offers_iff {source : Source} :
    (∀ other, ¬ source.Offers r other) ↔ source.offered? r = none := by
  simp only [← offered?_eq_some, Option.eq_none_iff_forall_ne_some, ne_eq]

theorem judges_iff {source : Source} : Judges r source token ↔ source.offered? r = some token ∧
    ∀ earlier : Source, earlier.rank < source.rank → earlier.offered? r = none := by
  simp only [Judges, Source.offered?_eq_some, Source.not_offers_iff]

theorem token?_eq_some_iff : token? r = some token ↔ ∃ source, Judges r source token := by
  have htoken : token? r = (Source.header.offered? r).or
    ((Source.query.offered? r).or (Source.cookie.offered? r)) := rfl
  simp only [htoken, Option.or_eq_some_iff, judges_iff]
  constructor
  · rintro (hheader | ⟨hheader, hquery | ⟨hquery, hcookie⟩⟩)
    · exact ⟨.header, hheader, nofun⟩
    · refine ⟨.query, hquery, fun earlier hlt => ?_⟩
      cases earlier with
      | header => exact hheader
      | query | cookie => simp [Source.rank] at hlt
    · refine ⟨.cookie, hcookie, fun earlier hlt => ?_⟩
      cases earlier with
      | header => exact hheader
      | query => exact hquery
      | cookie => simp at hlt
  · rintro ⟨source, hoffered, hearlier⟩
    cases source with
    | header => exact .inl hoffered
    | query => exact .inr ⟨hearlier .header (by decide), .inl hoffered⟩
    | cookie =>
      exact .inr ⟨hearlier .header (by decide), .inr ⟨hearlier .query (by decide), hoffered⟩⟩

theorem token?_eq_none (h : ∀ (source : Source) (token : String), ¬ source.Offers r token) :
    token? r = none := by
  rw [Option.eq_none_iff_forall_ne_some]
  intro token htoken
  obtain ⟨source, hjudges⟩ := token?_eq_some_iff.1 htoken
  exact h source token hjudges.1

theorem Judges.eq {source source' : Source} {token' : String} (h : Judges r source token)
    (h' : Judges r source' token') : source = source' ∧ token = token' := by
  have hrank : source.rank = source'.rank := by
    rcases Nat.lt_trichotomy source.rank source'.rank with hlt | heq | hlt
    · exact absurd h.1 (h'.2 source hlt token)
    · exact heq
    · exact absurd h'.1 (h.2 source' hlt token')
  obtain rfl := Source.rank_injective hrank
  have htoken := Source.offered?_eq_some.2 h.1
  rw [Source.offered?_eq_some.2 h'.1] at htoken
  exact ⟨rfl, (Option.some.inj htoken).symm⟩

theorem Source.Offers.exists_judges {source : Source} (h : source.Offers r token) :
    ∃ first other, Judges r first other ∧ first.rank ≤ source.rank := by
  induction hrank : source.rank using Nat.strongRecOn generalizing source token with
  | ind n ih =>
    subst hrank
    by_cases hearlier : ∃ earlier : Source, earlier.rank < source.rank ∧
        ∃ other, earlier.Offers r other
    · obtain ⟨earlier, hlt, other, hoffers⟩ := hearlier
      obtain ⟨first, found, hjudges, hle⟩ := ih earlier.rank hlt hoffers rfl
      exact ⟨first, found, hjudges, by omega⟩
    · exact ⟨source, token, ⟨h, fun earlier hlt other hoffers =>
        hearlier ⟨earlier, hlt, other, hoffers⟩⟩, Nat.le_refl _⟩

theorem Judges.caller_eq {source : Source} (h : Judges r source token)
    (htokens : settings.mode = .tokens) :
    caller settings wall r = callerOf settings.secret wall token := by
  unfold caller
  rw [htokens, token?_eq_some_iff.2 ⟨source, h⟩]

/-- **The first token that is offered is judged, and no other.** The caller is known just if that
token is accepted and names a user, and is that user then; if it is not, nothing that a later source
offers helps; and what offers nothing is passed over. -/
theorem caller_judged_by_first (htokens : settings.mode = .tokens) (wall : Score)
    (r : Http.Request) :
    (∀ source token source' token', Judges r source token → Judges r source' token' →
      source = source' ∧ token = token') ∧
    (∀ (source : Source) (token : String), source.Offers r token →
      ∃ first other, Judges r first other ∧ first.rank ≤ source.rank) ∧
    (∀ c, caller settings wall r = .ok c ↔ ∃ source token claims, Judges r source token ∧
      Token.validate settings.secret wall token = .ok claims ∧ claims.subject ≠ "" ∧
      c = ⟨claims.subject, claims.role⟩) ∧
    (∀ source token, Judges r source token →
      caller settings wall r = callerOf settings.secret wall token ∧
      ((∀ claims, Token.validate settings.secret wall token = .ok claims → claims.subject = "") →
        ∃ d, caller settings wall r = .error d ∧ d.status = 401)) ∧
    ((∀ (source : Source) (token : String), ¬ source.Offers r token) →
      caller settings wall r = .error .missingToken) := by
  refine ⟨fun _ _ _ _ h h' => h.eq h', fun _ _ h => h.exists_judges, fun c => ⟨?_, ?_⟩,
    fun source token hjudges => ⟨hjudges.caller_eq htokens, fun hrefused => ?_⟩,
    fun hnone => ?_⟩
  · intro h
    obtain ⟨claims, ⟨token, htoken, hclaims⟩, hid, hc⟩ := caller_eq_ok htokens h
    obtain ⟨source, hjudges⟩ := token?_eq_some_iff.1 htoken
    exact ⟨source, token, claims, hjudges, hclaims, hid, hc⟩
  · rintro ⟨source, token, claims, hjudges, hclaims, hid, rfl⟩
    exact Carries.caller_eq ⟨token, token?_eq_some_iff.2 ⟨source, hjudges⟩, hclaims⟩ htokens hid
  · refine caller_eq_error htokens ?_
    rintro ⟨claims, ⟨token', htoken, hclaims⟩, hid⟩
    obtain ⟨source', hjudges'⟩ := token?_eq_some_iff.1 htoken
    obtain ⟨-, rfl⟩ := hjudges.eq hjudges'
    exact hid (hrefused claims hclaims)
  · unfold caller
    rw [htokens, token?_eq_none hnone]

/-! ## Requests with several tokens -/

def requestWith (query : Option String) (headers : List (String × String)) : Http.Request :=
  { Http.Exchange.customerRequest with
    uri := ⟨"/v1/polling/user/events", query⟩
    headers := headers.map fun (name, value) => (name, Utf8.encode value.toList) }

def customerCookie : String × String :=
  ("cookie", "token=" ++ Http.Exchange.customerToken)

theorem offered?_customerCookie (query : Option String) (value : String) :
    Source.cookie.offered? (requestWith query [("authorization", value), customerCookie]) =
      some Http.Exchange.customerToken := by
  have halone : Source.cookie.offered? (requestWith none [customerCookie]) =
      some Http.Exchange.customerToken := by decide +kernel
  have htexts : (requestWith query [("authorization", value), customerCookie]).headers.texts
      "cookie" = (requestWith none [customerCookie]).headers.texts "cookie" :=
    List.filterMap_cons_none (if_neg (by decide))
  rw [Source.offered?, htexts]
  exact halone

/-- A header that offers what is no token spoils a cookie that does; one that offers nothing does
not, nor does an empty value. -/
theorem caller_judged_by_header_or_cookie :
    let spoilt := requestWith none [("authorization", "Bearer x"), customerCookie]
    let passed := requestWith (some "token=&token=x")
      [("authorization", "Basic x"), customerCookie]
    let access := Http.Exchange.customerApi.access
    Source.cookie.Offers spoilt Http.Exchange.customerToken ∧
      (∃ d, caller access 1700000000000000 spoilt = .error d ∧ d.status = 401) ∧
      Judges passed .cookie Http.Exchange.customerToken ∧
      caller access 1700000000000000 passed = .ok ⟨"U1", "CUSTOMER"⟩ := by
  intro spoilt passed access
  have hspoilt : Judges spoilt .header "x" := judges_iff.2 ⟨by decide +kernel, nofun⟩
  have hpassed : Judges passed .cookie Http.Exchange.customerToken := by
    refine judges_iff.2 ⟨offered?_customerCookie _ _, fun earlier hlt => ?_⟩
    cases earlier with
    | header | query => decide +kernel
    | cookie => cases Nat.lt_irrefl _ hlt
  have hrefused : ∀ claims, Token.validate access.secret 1700000000000000 "x" = .ok claims →
      claims.subject = "" := by
    intro claims hclaims
    have hnone : (Token.validate access.secret 1700000000000000 "x").toOption = none := by
      decide +kernel
    rw [hclaims] at hnone
    cases hnone
  refine ⟨Source.offered?_eq_some.1 (offered?_customerCookie _ _), ?_, hpassed, ?_⟩
  · exact ((caller_judged_by_first rfl 1700000000000000 spoilt).2.2.2.1 _ _ hspoilt).2 hrefused
  · exact ((caller_judged_by_first rfl 1700000000000000 passed).2.2.1 _).2
      ⟨.cookie, _, _, hpassed, Http.Exchange.validate_customerToken, by decide, rfl⟩

/-- A second `authorization` header is not looked at. -/
theorem second_header_not_judged :
    let r := requestWith none [("authorization", "Basic x"),
      ("authorization", "Bearer " ++ Http.Exchange.customerToken)]
    (∃ value ∈ r.headers.texts "authorization", ∃ scheme,
      (value.toList.splitOnP Text.isBlank).filter (· ≠ []) =
        [scheme, Http.Exchange.customerToken.toList] ∧
      scheme.map Char.toLower = "bearer".toList) ∧
    Token.validate Http.Exchange.customerApi.access.secret 1700000000000000
      Http.Exchange.customerToken = .ok ⟨"U1", "access_token", "CUSTOMER", none, none⟩ ∧
    caller Http.Exchange.customerApi.access 1700000000000000 r = .error .missingToken := by
  intro r
  refine ⟨⟨"Bearer " ++ Http.Exchange.customerToken, by decide +kernel, "Bearer".toList,
    by decide +kernel, by decide⟩, Http.Exchange.validate_customerToken, ?_⟩
  have htoken : token? r = none := by decide +kernel
  unfold caller
  rw [htoken]
  rfl

end Access

end NotificationQueue
