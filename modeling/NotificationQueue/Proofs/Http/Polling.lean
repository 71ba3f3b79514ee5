import NotificationQueue.Http.Exchange
import NotificationQueue.Proofs.Service.Isolation

/-!
Who may poll what. Where tokens are asked for, a poll that succeeds was made with a token that is
accepted, and its events come from the queue of the token's user or, for an administrator, from that
of all of these; and what a user without that role gets depends on nothing but the user's own queue,
the clock and the wall clock.
-/
namespace NotificationQueue
set_option autoImplicit false

/-! ## Callers -/

theorem Except.of_bind_eq_ok {ε α β : Type} {x : Except ε α} {f : α → Except ε β} {b : β}
    (h : (x >>= f) = .ok b) : ∃ a, x = .ok a ∧ f a = .ok b := by
  cases x with
  | error e => cases h
  | ok a => exact ⟨a, rfl, h⟩

theorem Except.of_mapError_eq_ok {ε ε' α : Type} {x : Except ε α} {f : ε → ε'} {a : α}
    (h : x.mapError f = .ok a) : x = .ok a := by
  cases x with
  | error e => cases h
  | ok a' =>
    cases h
    rfl

namespace Access

variable {settings : AccessSettings} {wall : Score} {r : Http.Request} {c : Caller}

/-- A request comes with a token that is accepted, and what that claims. -/
def Carries (settings : AccessSettings) (wall : Score) (r : Http.Request) (claims : Token.Claims) :
    Prop :=
  ∃ token, token? r = some token ∧ Token.validate settings.secret wall token = .ok claims

theorem Carries.eq {claims claims' : Token.Claims} (h : Carries settings wall r claims)
    (h' : Carries settings wall r claims') : claims = claims' := by
  obtain ⟨token, htoken, hclaims⟩ := h
  obtain ⟨token', htoken', hclaims'⟩ := h'
  obtain rfl : token = token' := Option.some.inj (htoken.symm.trans htoken')
  exact Except.ok.inj (hclaims.symm.trans hclaims')

theorem caller_eq_ok (htokens : settings.mode = .tokens) (h : caller settings wall r = .ok c) :
    ∃ claims, Carries settings wall r claims ∧ claims.subject ≠ "" ∧
      c = ⟨claims.subject, claims.role⟩ := by
  unfold caller at h
  rw [htokens] at h
  dsimp only at h
  split at h
  · cases h
  · next token htoken =>
    unfold callerOf at h
    split at h
    · cases h
    · cases h
    · next claims hclaims =>
      split at h
      · cases h
      · next hsubject =>
        cases h
        exact ⟨claims, ⟨token, htoken, hclaims⟩, hsubject, rfl⟩

theorem Carries.caller_eq {claims : Token.Claims} (h : Carries settings wall r claims)
    (htokens : settings.mode = .tokens) (hid : claims.subject ≠ "") :
    caller settings wall r = .ok ⟨claims.subject, claims.role⟩ := by
  obtain ⟨token, htoken, hclaims⟩ := h
  unfold caller callerOf
  rw [htokens, htoken]
  dsimp only
  rw [hclaims]
  exact if_neg hid

theorem adminCaller_eq_ok (h : adminCaller settings wall r = .ok c) :
    caller settings wall r = .ok c ∧ c.isAdmin = true := by
  obtain ⟨c', hc, h⟩ := Except.of_bind_eq_ok h
  split at h
  · next hadmin =>
    cases h
    exact ⟨hc, hadmin⟩
  · cases h

end Access

namespace Http

def Route.isPoll : Route → Bool
  | .pollEvents | .pollUserEvents | .pollAdminEvents => true
  | _ => false

variable {api : Api} {wall : Score} {r : Request} {route : Route} {p : PollRequest}

/-! ## Polls that are made -/

theorem subjectPoll_eq_ok {subject : Subject} (h : subjectPoll subject r = .ok p) :
    p.subject = subject := by
  obtain ⟨ps, -, h⟩ := Except.of_bind_eq_ok h
  cases h
  rfl

theorem Subject.forType_user (type : EventType) {id : String} (hid : id ≠ "") :
    Subject.forType type (some id) = .user id ∨ Subject.forType type (some id) = .admin := by
  cases type with
  | customerOrderStatus => exact .inl (if_neg hid)
  | _ => exact .inr rfl

theorem eventsPoll_eq_ok {c : Caller} (hid : c.id ≠ "") (h : eventsPoll c r = .ok p) :
    p.subject = .user c.id ∨ c.isAdmin = true ∧ p.subject = .admin := by
  obtain ⟨ps, -, h⟩ := Except.of_bind_eq_ok h
  obtain ⟨type, -, h⟩ := Except.of_bind_eq_ok h
  cases type with
  | none =>
    cases h
    exact .inl rfl
  | some t =>
    dsimp only at h
    split at h
    · cases h
    · next hallowed =>
      -- The queue is that of administrators only if the caller is one of them.
      cases h
      rcases Subject.forType_user t hid with huser | hadmin
      · exact .inl huser
      · refine .inr ⟨Decidable.not_not.1 fun hc => hallowed ⟨?_, hc⟩, hadmin⟩
        rw [hadmin]
        rfl

/-- **A poll is made with a token that is accepted**, of the queue of the token's user or, with the
role of an administrator, of that of all of these. -/
theorem Api.pollOf_eq_ok (htokens : api.access.mode = .tokens)
    (h : api.pollOf wall r route = .ok p) :
    ∃ claims, Access.Carries api.access wall r claims ∧ claims.subject ≠ "" ∧
      (p.subject = .user claims.subject ∨
        claims.role = Token.Claims.adminRole ∧ p.subject = .admin) := by
  unfold pollOf at h
  split at h
  · obtain ⟨c, hc, h⟩ := Except.of_bind_eq_ok h
    obtain ⟨claims, hcarries, hid, rfl⟩ := Access.caller_eq_ok htokens (Except.of_mapError_eq_ok hc)
    exact ⟨claims, hcarries, hid, .inl (subjectPoll_eq_ok h)⟩
  · obtain ⟨c, hc, h⟩ := Except.of_bind_eq_ok h
    obtain ⟨hc, hadmin⟩ := Access.adminCaller_eq_ok (Except.of_mapError_eq_ok hc)
    obtain ⟨claims, hcarries, hid, rfl⟩ := Access.caller_eq_ok htokens hc
    exact ⟨claims, hcarries, hid, .inr ⟨of_decide_eq_true hadmin, subjectPoll_eq_ok h⟩⟩
  · obtain ⟨c, hc, h⟩ := Except.of_bind_eq_ok h
    obtain ⟨claims, hcarries, hid, rfl⟩ := Access.caller_eq_ok htokens (Except.of_mapError_eq_ok hc)
    refine ⟨claims, hcarries, hid, ?_⟩
    rcases eventsPoll_eq_ok hid h with huser | ⟨hadmin, hsubject⟩
    · exact .inl huser
    · exact .inr ⟨of_decide_eq_true hadmin, hsubject⟩

/-! ## Requests that are refused -/

def Refuses {α : Type} (x : Except ErrorReply α) : Prop :=
  ∀ e, x = .error e → e.status ≠ 200

section

variable {α β : Type} {x : Except ErrorReply α}

theorem refuses_ok (a : α) : Refuses (.ok a) := nofun

theorem refuses_badRequest (message : String) :
    Refuses (.error (.badRequest message) : Except ErrorReply α) := by
  intro e he
  cases he
  nofun

theorem Refuses.bind (hx : Refuses x) {f : α → Except ErrorReply β} (hf : ∀ a, Refuses (f a)) :
    Refuses (x >>= f) := by
  cases x with
  | error e =>
    intro e' he
    cases he
    exact hx e rfl
  | ok a => exact hf a

theorem refuses_deny (x : Except AccessDenial α) : Refuses (x.mapError deny) := by
  cases x with
  | error d =>
    intro e he
    cases he
    cases d <;> nofun
  | ok a => exact refuses_ok a

end

theorem refuses_readParameters (typed : Bool) (r : Request) :
    Refuses (readParameters typed r) := by
  unfold readParameters
  split
  · exact refuses_ok _
  · exact refuses_badRequest _

theorem refuses_readType (name : Option String) : Refuses (readType name) := by
  unfold readType
  split
  · exact refuses_ok _
  · split
    · exact refuses_ok _
    · exact refuses_badRequest _

theorem refuses_subjectPoll (subject : Subject) (r : Request) : Refuses (subjectPoll subject r) :=
  (refuses_readParameters false r).bind fun _ => refuses_ok _

theorem refuses_eventsPoll (c : Caller) (r : Request) : Refuses (eventsPoll c r) := by
  refine (refuses_readParameters true r).bind fun ps => (refuses_readType _).bind fun type => ?_
  cases type with
  | none => exact refuses_ok _
  | some t =>
    dsimp only
    split
    · exact refuses_deny (.error .notAdmin)
    · exact refuses_ok _

theorem Api.refuses_pollOf (api : Api) (wall : Score) (r : Request) (route : Route) :
    Refuses (api.pollOf wall r route) := by
  unfold pollOf
  split
  · exact (refuses_deny _).bind fun c => refuses_subjectPoll _ r
  · exact (refuses_deny _).bind fun c => refuses_subjectPoll _ r
  · exact (refuses_deny _).bind fun c => refuses_eventsPoll c r

/-! ## Responses -/

@[simp] theorem Api.status_finish (api : Api) (r : Request) (response : Response) :
    (api.finish r response).status = response.status := by
  unfold finish
  dsimp only
  split
  · split
    · split <;> rfl
    · split <;> rfl
  · split <;> rfl

theorem pollResponse_ok {message : String} {x : Except Failure PollResponse}
    (h : (pollResponse message x).status = 200) : ∃ page, x = .ok page := by
  cases x with
  | ok page => exact ⟨page, rfl⟩
  | error f => cases f <;> cases h

theorem Route.takes_of_isPoll (h : route.isPoll = true) (method : String) :
    route.takes method = (method = "GET" || method = "HEAD") := by
  cases route with
  | pollEvents | pollUserEvents | pollAdminEvents => rfl
  | _ => cases h

theorem Api.plan_of_isPoll (hroute : Route.find? api.pathStart r.uri.path = some route)
    (hpoll : route.isPoll = true) (htakes : route.takes r.method = true) (wall : Score) :
    api.plan wall r = match api.pollOf wall r route with
      | .ok request => .poll request (successMessage route)
      | .error e => .respond e.response := by
  have hmethod : r.method ≠ "OPTIONS" := by
    intro hm
    rw [Route.takes_of_isPoll hpoll, hm] at htakes
    exact absurd htakes (by decide)
  unfold plan
  rw [if_neg hmethod, hroute]
  dsimp only
  rw [if_pos htakes]
  cases route with
  | pollEvents | pollUserEvents | pollAdminEvents => rfl
  | _ => cases hpoll

namespace Exchange

/-! ## What the answers to polls may depend on -/

/-- A response shows a page of a queue that a request's token gives access to: that of the token's
user or, with the role of an administrator, that of all of these. The request came to the service
`s`, and each event was in that queue at some time after `s'` had begun to work on it. -/
def IsConfined (api : Api) (r : Request) (s s' : Service) (ms : List Move) (response : Response) :
    Prop :=
  ∃ (claims : Token.Claims) (subject : Subject) (message : String) (page : PollResponse),
    Access.Carries api.access s.wall r claims ∧ claims.subject ≠ "" ∧
    (subject = .user claims.subject ∨
      claims.role = Token.Claims.adminRole ∧ subject = .admin) ∧
    response = api.finish r (pollResponse message (.ok page)) ∧
    ∀ e ∈ page.events, ∃ before, before <+: ms ∧
      ∃ entry ∈ (s'.run before).store.liveEntries subject.key (s'.run before).wall,
        entry.event = e

/-- Two services give a request the same answer: none, the same one at once, or polls that answer
alike. Polls do so if they take the same turns at services that agree on the queue of a key, and in
particular if they are left alone. -/
def Alike (api : Api) (r : Request) (key : String) (s t : Service) : Prop :=
  (start? api s r = none ∧ start? api t r = none) ∨
  (∃ response, start? api s r = some (s, .answered response) ∧
    start? api t r = some (t, .answered response)) ∨
  ∃ s' i t' j message, start? api s r = some (s', .polling i message) ∧
    start? api t r = some (t', .polling j message) ∧
    (∀ ms ns, SameTurns key s.now t.now (s'.seen i (s'.isLongPoll i) ms)
        (t'.seen j (t'.isLongPoll j) ns) →
      (polling i message).response? api (s'.run ms) r =
        (polling j message).response? api (t'.run ns) r) ∧
    ∀ xs : List (PollTurn ⊕ Nat),
      (∀ turn, .inl turn ∈ xs → turn.isLoops = true → s'.isLongPoll i = true) →
      (polling i message).response? api (s'.run (xs.map (PollTurn.orTime i))) r =
        (polling j message).response? api (t'.run (xs.map (PollTurn.orTime j))) r

section

variable {s s' t : Service} (hroute : Route.find? api.pathStart r.uri.path = some route)
  (hpoll : route.isPoll = true) (htakes : route.takes r.method = true)

include hroute hpoll htakes

theorem start?_of_isPoll (s : Service) : start? api s r = match api.pollOf s.wall r route with
    | .ok request =>
      (s.poll? request false).map fun (after, task) => (after, .polling task (successMessage route))
    | .error e => some (s, .answered (api.finish r e.response)) := by
  unfold start?
  rw [Api.plan_of_isPoll hroute hpoll htakes]
  cases api.pollOf s.wall r route <;> rfl

variable (htokens : api.access.mode = .tokens)

include htokens

theorem isConfined_of_success (hs : s.Paired) {x : Exchange} (h : start? api s r = some (s', x))
    {ms : List Move} {response : Response}
    (hr : x.response? api (s'.run ms) r = some response) (hok : response.status = 200) :
    IsConfined api r s s' ms response := by
  rw [start?_of_isPoll hroute hpoll htakes] at h
  cases hpollOf : api.pollOf s.wall r route with
  | error e =>
    rw [hpollOf] at h
    cases h
    cases hr
    rw [Api.status_finish] at hok
    exact absurd hok (Api.refuses_pollOf api s.wall r route e hpollOf)
  | ok request =>
    rw [hpollOf] at h
    obtain ⟨⟨after, task⟩, hstart, heq⟩ := Option.map_eq_some_iff.1 h
    cases heq
    obtain ⟨result, hresult, rfl⟩ := Option.map_eq_some_iff.1 hr
    rw [Api.status_finish] at hok
    obtain ⟨page, rfl⟩ := pollResponse_ok hok
    obtain ⟨claims, hcarries, hid, hsubject⟩ := Api.pollOf_eq_ok htokens hpollOf
    exact ⟨claims, request.subject, successMessage route, page, hcarries, hid, hsubject, rfl,
      fun e he => Service.mem_of_pollResult? hs hstart hresult he⟩

theorem alike_of_agrees (hs : s.Paired) (ht : t.Paired) {claims : Token.Claims}
    (hcarries : Access.Carries api.access s.wall r claims)
    (hrole : claims.role ≠ Token.Claims.adminRole)
    (hagree : s.Agrees t (Subject.user claims.subject).key) :
    Alike api r (Subject.user claims.subject).key s t := by
  unfold Alike
  rw [start?_of_isPoll hroute hpoll htakes, start?_of_isPoll hroute hpoll htakes, ← hagree.wall]
  cases hpollOf : api.pollOf s.wall r route with
  | error e => exact .inr (.inl ⟨_, rfl, rfl⟩)
  | ok request =>
    obtain ⟨claims', hcarries', -, hsubject⟩ := Api.pollOf_eq_ok htokens hpollOf
    obtain rfl := hcarries.eq hcarries'
    have huser : request.subject = .user claims.subject :=
      hsubject.resolve_right fun hadmin => hrole hadmin.1
    rw [← huser] at hagree ⊢
    have hnone := Service.poll?_eq_none_iff hagree.settings request false
    dsimp only
    cases hstart : s.poll? request false with
    | none =>
      rw [hnone.1 hstart]
      exact .inl ⟨rfl, rfl⟩
    | some a =>
      cases hstart' : t.poll? request false with
      | none =>
        rw [hnone.2 hstart'] at hstart
        cases hstart
      | some b =>
        refine .inr (.inr ⟨a.1, a.2, b.1, b.2, successMessage route, rfl, rfl, ?_, ?_⟩)
        · intro ms ns hsame
          exact congrArg (Option.map _)
            (Service.pollResult?_eq_of_sameTurns hs ht hagree.settings hstart hstart' hsame)
        · intro xs hxs
          exact congrArg (Option.map _) (Service.pollResult?_eq_of_sameTurns hs ht hagree.settings
            hstart hstart' (Service.sameTurns_poll? hs ht hagree hstart hstart' hxs))

end

/-- **Polls leak nothing across users.** Where tokens are asked for, a request to a route of polls,
with a method that it takes, shows events of a queue that its token gives access to if it succeeds,
and no others; and a user without the role of an administrator gets the same answer from any two
services that agree on the user's queue, on the clock and on the wall clock. -/
theorem polls_confined (api : Api) (r : Request) {route : Route}
    (htokens : api.access.mode = .tokens)
    (hroute : Route.find? api.pathStart r.uri.path = some route) (hpoll : route.isPoll = true)
    (htakes : route.takes r.method = true) :
    (∀ (s s' : Service) (x : Exchange) (ms : List Move) (response : Response), s.Paired →
      start? api s r = some (s', x) → x.response? api (s'.run ms) r = some response →
      response.status = 200 → IsConfined api r s s' ms response) ∧
    ∀ (s t : Service) (claims : Token.Claims), s.Paired → t.Paired →
      Access.Carries api.access s.wall r claims → claims.role ≠ Token.Claims.adminRole →
      s.Agrees t (Subject.user claims.subject).key →
      Alike api r (Subject.user claims.subject).key s t := by
  constructor
  · intro s s' x ms response hs h hr hok
    exact isConfined_of_success hroute hpoll htakes htokens hs h hr hok
  · intro s t claims hs ht hcarries hrole hagree
    exact alike_of_agrees hroute hpoll htakes htokens hs ht hcarries hrole hagree

/-! ## A customer's poll -/

/-- A token of a customer that does not end, signed with a short key. -/
def customerToken : String :=
  "eyJ0eXAiOiJKV1QiLCJhbGciOiJIUzI1NiJ9." ++
    "eyJzdWIiOiJVMSIsInR5cGUiOiJhY2Nlc3NfdG9rZW4iLCJyb2xlIjoiQ1VTVE9NRVIifQ." ++
    "OsHlKhqz0oJbI4grZYLoV_kpaVMiMXnFWcG2rUpEv4E"

def customerApi : Api :=
  ⟨"", .default, .withSecret (Utf8.encode ['k', '3', 'y'])⟩

def customerRequest : Request where
  method := "GET"
  uri := ⟨"/v1/polling/user/events", none⟩
  headers := [("authorization", Utf8.encode ("Bearer " ++ customerToken).toList)]
  body := []

theorem validate_customerToken : Token.validate (Utf8.encode ['k', '3', 'y']) 1700000000000000
    customerToken = .ok ⟨"U1", "access_token", "CUSTOMER", none, none⟩ := by
  have hok : (Token.validate (Utf8.encode ['k', '3', 'y']) 1700000000000000
      customerToken).toOption = some ⟨"U1", "access_token", "CUSTOMER", none, none⟩ := by
    decide +kernel
  cases hresult : Token.validate (Utf8.encode ['k', '3', 'y']) 1700000000000000 customerToken with
  | error refusal =>
    rw [hresult] at hok
    cases hok
  | ok claims =>
    rw [hresult] at hok
    obtain rfl := Option.some.inj hok
    rfl

theorem carries_customerRequest : Access.Carries customerApi.access 1700000000000000
    customerRequest ⟨"U1", "access_token", "CUSTOMER", none, none⟩ :=
  ⟨customerToken, by decide +kernel, validate_customerToken⟩

def twoPublished (r : PublishRequest) : Service :=
  (Service.sample {} 1700000000000000).run
    ([.publish (.orderStatusChange "o" "U1" "s"), .publish r] ++
      List.replicate 4 (.advance 0 .done) ++ List.replicate 4 (.advance 1 .done))

theorem paired_twoPublished (r : PublishRequest) : (twoPublished r).Paired :=
  Service.Reachable.paired
    ⟨{}, Service.sampleIds, _, _, _, Service.start?_sample (by decide) _, rfl⟩

/-- The customer gets the event, and gets the same beside an order as beside another customer's
event. -/
theorem polls_confined_beside_other_queues :
    let s := twoPublished (.newOrder "a" "x" "1")
    let t := twoPublished (.orderStatusChange "p" "U2" "s")
    (s.store.queue? Subject.admin.key).isSome = true ∧
    (t.store.queue? Subject.admin.key).isSome = false ∧
    Alike customerApi customerRequest (Subject.user "U1").key s t ∧
    ∃ s' x response, start? customerApi s customerRequest = some (s', x) ∧
      x.response? customerApi (s'.run [.advance 2 .done, .advance 2 .done]) customerRequest =
        some response ∧ response.status = 200 ∧
      IsConfined customerApi customerRequest s s' [.advance 2 .done, .advance 2 .done]
        response := by
  intro s t
  have hroute : Route.find? customerApi.pathStart customerRequest.uri.path =
    some .pollUserEvents := by decide +kernel
  obtain ⟨hsuccess, halike⟩ :=
    polls_confined customerApi customerRequest rfl hroute rfl (by decide)
  have hs : s.Paired := paired_twoPublished _
  have hwall : s.wall = 1700000000000000 := by decide +kernel
  have hcarries : Access.Carries customerApi.access s.wall customerRequest
      ⟨"U1", "access_token", "CUSTOMER", none, none⟩ := hwall ▸ carries_customerRequest
  have hagree : s.Agrees t (Subject.user "U1").key :=
    ⟨rfl, rfl, by decide +kernel, by decide +kernel⟩
  refine ⟨by decide +kernel, by decide +kernel,
    halike s t _ hs (paired_twoPublished _) hcarries (by decide) hagree, ?_⟩
  have hpollOf : customerApi.pollOf s.wall customerRequest .pollUserEvents =
      .ok { subject := .user "U1" } := by
    rw [Api.pollOf, hcarries.caller_eq rfl (by decide)]
    rfl
  have hstart := start?_of_isPoll hroute rfl (by decide) s
  rw [hpollOf] at hstart
  dsimp only at hstart
  rw [Service.poll?_plain rfl, Option.map_some] at hstart
  generalize hafter : s.spawn _ = s' at hstart
  have hpage : (((s'.run [.advance 2 .done, .advance 2 .done]).pollResult? 2).bind
      Except.toOption).isSome = true := by
    rw [← hafter]
    decide +kernel
  obtain ⟨page, hpage⟩ := Option.isSome_iff_exists.1 hpage
  obtain ⟨result, hresult, hok⟩ := Option.bind_eq_some_iff.1 hpage
  cases result with
  | error f => cases hok
  | ok found =>
    have hresponse : (polling s.tasks.size (successMessage .pollUserEvents)).response? customerApi
        (s'.run [.advance 2 .done, .advance 2 .done]) customerRequest =
          some (customerApi.finish customerRequest
            (pollResponse (successMessage .pollUserEvents) (.ok found))) :=
      congrArg (Option.map _) hresult
    exact ⟨s', _, _, hstart, hresponse, rfl, hsuccess s s' _ _ _ hs hstart hresponse rfl⟩

end Exchange

end Http

end NotificationQueue
