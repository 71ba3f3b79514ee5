import NotificationQueue.Proofs.Http.Polling
import NotificationQueue.Proofs.Service.Answers

/-!
Requests that are refused. What a poll or a publish comes to once it has begun is never told as the
caller's fault, so whoever is refused was answered at once, by a service that did nothing for it.
-/
namespace NotificationQueue
set_option autoImplicit false

namespace Service

variable {s t : Service}

theorem pollResult?_ne_invalidInput (hp : s.Paired) {r : PollRequest} {cancelled : Bool} {id : Nat}
    (h : s.poll? r cancelled = some (t, id)) (ms : List Move) (reason : String) :
    (t.run ms).pollResult? id ≠ some (.error (.invalidInput reason)) := by
  intro hresult
  rcases failure_of_pollResult? hp h hresult with ⟨fault, hf⟩ | hf | ⟨-, hf⟩ <;> cases hf

theorem failure_of_publishResult? {p : Publication} {f : Failure}
    (h : s.publishResult? p = some (.error f)) : ∃ fault, f = .store fault := by
  unfold publishResult? at h
  split at h
  · cases h
  · split at h
    · cases h
    · next fault _ =>
      cases h
      exact ⟨fault, rfl⟩
    · cases h
  · cases h

end Service

namespace Access

variable {settings : AccessSettings} {wall : Score} {r : Http.Request} {d : AccessDenial}

theorem status_of_callerOf {secret : List UInt8} {token : String}
    (h : callerOf secret wall token = .error d) : d.status = 401 := by
  unfold callerOf at h
  split at h
  · cases h
    rfl
  · cases h
    rfl
  · split at h <;> cases h
    rfl

theorem status_of_caller (h : caller settings wall r = .error d) : d.status = 401 := by
  unfold caller at h
  split at h
  · cases h
  · split at h
    · cases h
      rfl
    · exact status_of_callerOf h

theorem caller_eq_error (htokens : settings.mode = .tokens)
    (hnone : ¬ ∃ claims, Carries settings wall r claims ∧ claims.subject ≠ "") :
    ∃ d, caller settings wall r = .error d ∧ d.status = 401 := by
  cases h : caller settings wall r with
  | error d => exact ⟨d, rfl, status_of_caller h⟩
  | ok c =>
    obtain ⟨claims, hcarries, hid, -⟩ := caller_eq_ok htokens h
    exact absurd ⟨claims, hcarries, hid⟩ hnone

end Access

namespace Http

variable {api : Api} {wall : Score} {r : Request}

/-! ## Responses of refusal -/

/-- The request is refused: for what it says, or for who its caller is. -/
def Response.Rejects (response : Response) : Prop :=
  response.status = 400 ∨ response.status = 401 ∨ response.status = 403

instance (response : Response) : Decidable response.Rejects :=
  inferInstanceAs (Decidable (_ ∨ _ ∨ _))

/-- The body tells of no success. To a `HEAD` there is none. -/
def TellsFailure (r : Request) (body : Option Json) : Prop :=
  if r.method = "HEAD" then body = none
  else ∃ e : ErrorBody, e.success = false ∧ body = some e.toJson

theorem ErrorReply.of_rejects_ofFailure {f : Failure} {context : String}
    (h : (ErrorReply.ofFailure f context).response.Rejects) :
    ∃ reason, f = .invalidInput reason := by
  cases f with
  | invalidInput reason => exact ⟨reason, rfl⟩
  | _ => rcases h with h | h | h <;> cases h

theorem of_rejects_pollResponse {message : String} {x : Except Failure PollResponse}
    (h : (pollResponse message x).Rejects) : ∃ reason, x = .error (.invalidInput reason) := by
  cases x with
  | ok page => rcases h with h | h | h <;> cases h
  | error f =>
    obtain ⟨reason, rfl⟩ := ErrorReply.of_rejects_ofFailure h
    exact ⟨reason, rfl⟩

theorem of_rejects_publishResponse {message : String} {x : Except Failure Delivery}
    (h : (publishResponse message x).Rejects) : ∃ reason, x = .error (.invalidInput reason) := by
  cases x with
  | ok delivery => rcases h with h | h | h <;> cases h
  | error f =>
    obtain ⟨reason, rfl⟩ := ErrorReply.of_rejects_ofFailure h
    exact ⟨reason, rfl⟩

theorem not_rejects_healthResponse (x : Except Failure Unit) : ¬ (healthResponse x).Rejects := by
  cases x <;> rintro (h | h | h) <;> cases h

theorem Api.rejects_finish {response : Response} :
    (api.finish r response).Rejects ↔ response.Rejects := by
  simp only [Response.Rejects, Api.status_finish]

theorem Api.body_finish (api : Api) (r : Request) (response : Response) :
    (api.finish r response).body = if r.method = "HEAD" then none else response.body := by
  unfold finish
  by_cases hhead : r.method = "HEAD"
  · simp only [if_pos hhead]
    split
    · split <;> rfl
    · rfl
  · simp only [if_neg hhead]
    split
    · split <;> rfl
    · rfl

theorem tellsFailure_finish (api : Api) (r : Request) (e : ErrorReply) :
    TellsFailure r (api.finish r e.response).body := by
  unfold TellsFailure
  rw [Api.body_finish]
  split
  · rfl
  · exact ⟨{ message := e.message, error := e.details }, rfl, rfl⟩

/-! ## Plans of refusal -/

theorem not_rejects_preflight (c : CrossOrigin) : ¬ (preflight c).Rejects := by
  have hstatus : (preflight c).status = 200 := by
    unfold preflight
    dsimp only
    split
    · split <;> rfl
    · split <;> rfl
  intro h
  rw [Response.Rejects, hstatus] at h
  rcases h with h | h | h <;> cases h

theorem Api.of_planOf_eq_respond {route : Route} {response : Response}
    (h : api.planOf wall r route = .respond response) :
    ∃ e : ErrorReply, response = e.response := by
  unfold planOf at h
  split at h
  -- Probes and the document are never refused.
  case h_1 | h_2 | h_3 | h_4 => cases h
  -- Polls.
  case h_5 | h_6 | h_7 =>
    split at h <;> cases h
    exact ⟨_, rfl⟩
  -- Publishes.
  case h_8 =>
    split at h
    · cases h
      exact ⟨_, rfl⟩
    · split at h <;> cases h
      exact ⟨_, rfl⟩

theorem Api.of_plan_eq_respond {response : Response} (h : api.plan wall r = .respond response) :
    (∃ e : ErrorReply, response = e.response) ∨ ¬ response.Rejects := by
  unfold plan at h
  split at h
  · cases h
    exact .inr (not_rejects_preflight _)
  · split at h
    · cases h
      exact .inr (by decide)
    · split at h
      · exact .inl (Api.of_planOf_eq_respond h)
      · cases h
        exact .inr (by decide)

namespace Exchange

variable {s t : Service} {x : Exchange}

/-- **Who is refused was answered at once**, and the service is as it was. -/
theorem of_rejects (hp : s.Paired) (h : start? api s r = some (t, x)) {ms : List Move}
    {response : Response} (hr : x.response? api (t.run ms) r = some response)
    (hrejects : response.Rejects) :
    t = s ∧ x = .answered response ∧ TellsFailure r response.body := by
  unfold start? at h
  split at h
  case h_1 plain hplan =>
    cases h
    cases hr
    rcases Api.of_plan_eq_respond hplan with ⟨e, rfl⟩ | hnot
    · exact ⟨rfl, rfl, tellsFailure_finish api r e⟩
    · exact absurd (Api.rejects_finish.1 hrejects) hnot
  case h_2 =>
    cases h
    cases hr
    exact absurd (Api.rejects_finish.1 hrejects) (by decide)
  case h_3 request message hplan =>
    obtain ⟨⟨after, task⟩, hpoll, heq⟩ := Option.map_eq_some_iff.1 h
    cases heq
    obtain ⟨result, hresult, rfl⟩ := Option.map_eq_some_iff.1 hr
    obtain ⟨reason, rfl⟩ := of_rejects_pollResponse (Api.rejects_finish.1 hrejects)
    exact absurd hresult (Service.pollResult?_ne_invalidInput hp hpoll ms reason)
  case h_4 draft message hplan =>
    cases h
    obtain ⟨result, hresult, rfl⟩ := Option.map_eq_some_iff.1 hr
    obtain ⟨reason, rfl⟩ := of_rejects_publishResponse (Api.rejects_finish.1 hrejects)
    obtain ⟨fault, hf⟩ := Service.failure_of_publishResult? hresult
    cases hf
  case h_5 hplan =>
    cases h
    obtain ⟨result, hresult, rfl⟩ := Option.map_eq_some_iff.1 hr
    exact absurd (Api.rejects_finish.1 hrejects) (not_rejects_healthResponse result)

end Exchange

/-! ## Polls without a token -/

theorem Api.pollOf_eq_error (htokens : api.access.mode = .tokens)
    (hnone : ¬ ∃ claims, Access.Carries api.access wall r claims ∧ claims.subject ≠ "")
    (route : Route) : ∃ e, api.pollOf wall r route = .error e ∧ e.status = 401 := by
  obtain ⟨d, hcaller, hstatus⟩ := Access.caller_eq_error htokens hnone
  refine ⟨deny d, ?_, hstatus⟩
  unfold pollOf
  split
  · rw [hcaller]
    rfl
  · rw [Access.adminCaller, hcaller]
    rfl
  · rw [hcaller]
    rfl

namespace Exchange

/-- **A request that is refused leaves the service untouched.** Whatever the request is: if it is
answered with one of the statuses of refusal then the service has done nothing for it, the answer
was there at once, and it tells of no success. Where tokens are asked for, a request for a poll that
comes without a token that is accepted and names a user is refused for that, whatever else it
says. -/
theorem refused_untouched (api : Api) (r : Request) :
    (∀ (s t : Service) (x : Exchange) (ms : List Move) (response : Response), s.Reachable →
      start? api s r = some (t, x) → x.response? api (t.run ms) r = some response →
      response.Rejects → t = s ∧ x = .answered response ∧ TellsFailure r response.body) ∧
    ∀ route, api.access.mode = .tokens →
      Route.find? api.pathStart r.uri.path = some route → route.isPoll = true →
      route.takes r.method = true →
      ∀ s : Service,
        (¬ ∃ claims, Access.Carries api.access s.wall r claims ∧ claims.subject ≠ "") →
        ∃ response, start? api s r = some (s, .answered response) ∧ response.status = 401 := by
  constructor
  · intro s t x ms response hs h hr hrejects
    exact of_rejects hs.paired h hr hrejects
  · intro route htokens hroute hpoll htakes s hnone
    obtain ⟨e, hpollOf, hstatus⟩ := Api.pollOf_eq_error htokens hnone route
    refine ⟨api.finish r e.response, ?_, ?_⟩
    · rw [start?_of_isPoll hroute hpoll htakes, hpollOf]
    · rw [Api.status_finish]
      exact hstatus

/-! ## A customer who is refused -/

def adminRequest : Request :=
  { customerRequest with uri := ⟨"/v1/polling/admin/events", some "longPoll=perhaps"⟩ }

/-- The customer is refused for the role, and without the token for that. -/
theorem refused_untouched_customer :
    let s := Service.sample {} 1700000000000000
    (∃ response, start? customerApi s adminRequest = some (s, .answered response) ∧
      response.status = 403 ∧ TellsFailure adminRequest response.body) ∧
    ∃ response, start? customerApi s { adminRequest with headers := [] } =
      some (s, .answered response) ∧ response.status = 401 := by
  intro s
  constructor
  · have hcarries : Access.Carries customerApi.access s.wall adminRequest
        ⟨"U1", "access_token", "CUSTOMER", none, none⟩ := carries_customerRequest
    have hpollOf : customerApi.pollOf s.wall adminRequest .pollAdminEvents =
        .error (deny .notAdmin) := by
      rw [Api.pollOf, Access.adminCaller, hcarries.caller_eq rfl (by decide)]
      rfl
    have hroute : Route.find? customerApi.pathStart adminRequest.uri.path =
        some .pollAdminEvents := by decide +kernel
    have hstart := start?_of_isPoll hroute rfl (by decide) s
    rw [hpollOf] at hstart
    have hrejects : (customerApi.finish adminRequest (deny .notAdmin).response).Rejects :=
      Api.rejects_finish.2 (by decide)
    exact ⟨_, hstart, Api.status_finish _ _ _,
      ((refused_untouched customerApi adminRequest).1 s s _ [] _ (Service.reachable_sample _ [])
        hstart rfl hrejects).2.2⟩
  · refine (refused_untouched customerApi { adminRequest with headers := [] }).2 .pollAdminEvents
      rfl (by decide +kernel) rfl (by decide) s ?_
    rintro ⟨claims, ⟨token, htoken, -⟩, -⟩
    revert htoken
    exact ne_of_beq_false rfl

/-- A `HEAD` without a token is refused without a body; and where no tokens are asked for, a poll
without one succeeds. -/
theorem refused_without_body :
    let s := Service.sample {} 1700000000000000
    let plain := { customerRequest with headers := [] }
    let head := { plain with method := "HEAD" }
    let openApi := { customerApi with access := .disabled }
    (∃ response, start? customerApi s head = some (s, .answered response) ∧
      response.status = 401 ∧ ¬ ∃ e : ErrorBody, response.body = some e.toJson) ∧
    (¬ ∃ claims, Access.Carries openApi.access s.wall plain claims) ∧
    ∃ t x response, start? openApi s plain = some (t, x) ∧
      x.response? openApi (t.run [.advance 0 .done, .advance 0 .done]) plain = some response ∧
      response.status = 200 := by
  intro s plain head openApi
  have hnone : ∀ access : AccessSettings, ∀ r : Request, r.headers = [] → r.uri.query = none →
      ¬ ∃ claims, Access.Carries access s.wall r claims := by
    rintro access r hheaders hquery ⟨claims, token, htoken, -⟩
    rw [Access.token?, hheaders, hquery] at htoken
    cases htoken
  refine ⟨?_, hnone _ plain rfl rfl, ?_⟩
  · have hroute : Route.find? customerApi.pathStart head.uri.path = some .pollUserEvents := by
      decide +kernel
    have hnobody : ¬ ∃ claims, Access.Carries customerApi.access s.wall head claims ∧
        claims.subject ≠ "" :=
      fun ⟨claims, hcarries, _⟩ => hnone _ head rfl rfl ⟨claims, hcarries⟩
    obtain ⟨e, hpollOf, hstatus⟩ := Api.pollOf_eq_error rfl hnobody .pollUserEvents
    have hstart := start?_of_isPoll hroute rfl (by decide) s
    rw [hpollOf] at hstart
    refine ⟨_, hstart, (Api.status_finish _ _ _).trans hstatus, ?_⟩
    rintro ⟨e', hbody⟩
    rw [Api.body_finish] at hbody
    cases hbody
  · have hroute : Route.find? openApi.pathStart plain.uri.path = some .pollUserEvents := by
      decide +kernel
    have hstart := start?_of_isPoll hroute rfl (by decide) s
    have hpollOf : openApi.pollOf s.wall plain .pollUserEvents =
        .ok { subject := .user "anonymous" } := rfl
    rw [hpollOf] at hstart
    dsimp only at hstart
    rw [Service.poll?_plain rfl, Option.map_some] at hstart
    exact ⟨_, _, _, hstart, rfl, Api.status_finish _ _ _⟩

end Exchange

end Http

end NotificationQueue
