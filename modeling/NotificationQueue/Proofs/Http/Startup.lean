import NotificationQueue.Http.Api

/-!
Start-up: which environments lead to an interface. Loading looks at the port and at the store; the
prefix and the lists for other sites pass through it unseen, and only building the interface asks
whether they can be served.
-/
namespace NotificationQueue.Startup
set_option autoImplicit false

variable {env : Environment} {settings : ServerSettings} {names : List String}

/-! ## Lone asterisks -/

theorem joined_eq_asterisk : Http.joined names = "*" ↔ names = ["*"] := by
  match names with
  | [] => decide
  | [s] => simp [Http.joined]
  | s :: t :: rest =>
    constructor
    · intro h
      -- Two names have a comma between them, and an asterisk is none.
      have hcomma : ',' ∈ (Http.joined (s :: t :: rest)).toList := by
        simp [Http.joined]
      rw [h] at hcomma
      exact absurd hcomma (by decide)
    · intro h
      cases h

theorem filterMap_eq_asterisk {valid : String → Option String}
    (hvalid : ∀ s t, valid s = some t → (t = "*" ↔ s = "*")) :
    names.filterMap valid = ["*"] ↔ names.filter (fun s => (valid s).isSome) = ["*"] := by
  induction names with
  | nil => simp
  | cons s rest ih =>
    cases hs : valid s with
    | none => simpa [hs] using ih
    | some t =>
      have hrest : rest.filterMap valid = [] ↔ rest.filter (fun s => (valid s).isSome) = [] := by
        simp [List.filterMap_eq_nil_iff, List.filter_eq_nil_iff]
      simp [hs, hvalid s t hs, hrest]

theorem methodsOf_eq_asterisk : CrossOrigin.methodsOf names = ["*"] ↔
    names.filter (fun s => (Http.method? s).isSome) = ["*"] := by
  apply filterMap_eq_asterisk
  intro s t h
  simp only [Http.method?, Option.ite_none_right_eq_some, Option.some.injEq] at h
  rw [h.2]

theorem toLower_eq_asterisk {c : Char} : c.toLower = '*' ↔ c = '*' := by
  unfold Char.toLower
  split
  · next hcapital =>
    have hlow : 65 ≤ c.val.toNat := hcapital.1
    have hhigh : c.val.toNat ≤ 90 := hcapital.2
    constructor
    · intro h
      have hval : (c.val.toNat + 32) % 2 ^ 32 = 42 := by
        simpa using congrArg (fun c : Char => c.val.toNat) h
      omega
    · rintro rfl
      exact absurd hlow (by decide)
  · rfl

theorem asciiLower_eq_asterisk {s : String} : Text.asciiLower s = "*" ↔ s = "*" := by
  have hs : s = "*" ↔ s.toList = ['*'] := String.toList_inj.symm
  rw [hs, ← String.toList_inj]
  simp only [Text.asciiLower, String.toList_ofList]
  match s.toList with
  | [] => decide
  | [c] => simpa using toLower_eq_asterisk
  | _ :: _ :: _ => simp

theorem headersOf_eq_asterisk : CrossOrigin.headersOf names = ["*"] ↔
    names.filter (fun s => (Http.headerName? s).isSome) = ["*"] := by
  apply filterMap_eq_asterisk
  intro s t h
  simp only [Http.headerName?, Option.ite_none_right_eq_some, Option.some.injEq] at h
  rw [← h.2, asciiLower_eq_asterisk]

/-! ## Loading and building -/

theorem ofEnvironment_eq_ok (h : ServerSettings.ofEnvironment env = .ok settings) :
    settings.pathStart = (env.text? "API_PREFIX").getD "" ∧
      settings.crossOrigin = ServerSettings.crossOriginOf env := by
  unfold ServerSettings.ofEnvironment at h
  cases hport : ServerSettings.portOf env with
  | error e => simp [hport, bind, Except.bind] at h
  | ok port =>
    cases hbackend : ServerSettings.backendOf env with
    | error e => simp [hport, hbackend, bind, Except.bind] at h
    | ok backend =>
      cases hdatabase : ServerSettings.databaseOf env backend with
      | error e => simp [hport, hbackend, hdatabase, bind, Except.bind] at h
      | ok database =>
        simp only [hport, hbackend, hdatabase, bind, Except.bind, pure, Except.pure,
          Except.ok.injEq] at h
        rw [← h]
        exact ⟨rfl, rfl⟩

theorem joined_getD_ne_asterisk {read : List String → List String}
    {listed : Option (List String)} {usual : List String} (husual : usual ≠ ["*"]) :
    Http.joined ((listed.map read).getD usual) ≠ "*" ↔
      ∀ names, listed = some names → read names ≠ ["*"] := by
  rw [Ne, joined_eq_asterisk]
  cases listed with
  | none => simpa using husual
  | some names => simp

/-- **An environment that loads is served just if its prefix can stand before a route and neither
its methods nor its headers come down to a lone asterisk.** Loading asks for none of the three, and
what stands for one that is not set can be served. -/
theorem served_iff (h : ServerSettings.ofEnvironment env = .ok settings)
    (access : AccessSettings) :
    (Http.Api.build? settings.pathStart settings.crossOrigin access).isSome ↔
      (∀ start, env.text? "API_PREFIX" = some start → Http.Route.isPathStart start = true) ∧
      (∀ names, env.list? "CORS_ALLOWED_METHODS" = some names →
        names.filter (fun s => (Http.method? s).isSome) ≠ ["*"]) ∧
      ∀ names, env.list? "CORS_ALLOWED_HEADERS" = some names →
        names.filter (fun s => (Http.headerName? s).isSome) ≠ ["*"] := by
  obtain ⟨hstart, hcross⟩ := ofEnvironment_eq_ok h
  have hprefix : Http.Route.isPathStart settings.pathStart = true ↔
      ∀ start, env.text? "API_PREFIX" = some start → Http.Route.isPathStart start = true := by
    rw [hstart]
    cases env.text? "API_PREFIX" with
    | none => simp [Http.Route.isPathStart]
    | some start => simp
  have hmethods : Http.joined settings.crossOrigin.methods ≠ "*" ↔
      ∀ names, env.list? "CORS_ALLOWED_METHODS" = some names →
        names.filter (fun s => (Http.method? s).isSome) ≠ ["*"] := by
    simp only [Ne, ← methodsOf_eq_asterisk, hcross]
    exact joined_getD_ne_asterisk (by decide)
  have hheaders : Http.joined settings.crossOrigin.headers ≠ "*" ↔
      ∀ names, env.list? "CORS_ALLOWED_HEADERS" = some names →
        names.filter (fun s => (Http.headerName? s).isSome) ≠ ["*"] := by
    simp only [Ne, ← headersOf_eq_asterisk, hcross]
    exact joined_getD_ne_asterisk (by decide)
  rw [Http.Api.build?, ← hmethods, ← hheaders, ← hprefix]
  simp [Http.isServable]

def inMemory (others : List (String × String)) : Environment where
  bindings := (("STORE_BACKEND", "memory") :: others).map fun (name, value) =>
    (name, Utf8.encode value.toList)

/-- A prefix with a parameter and an asterisk next to another method are served; an asterisk that is
the one header name among the pieces is not. -/
theorem served_with_parameter :
    (∃ settings, ServerSettings.ofEnvironment (inMemory
        [("API_PREFIX", "/shops/:shop"), ("CORS_ALLOWED_METHODS", "GET, *")]) = .ok settings ∧
      (Http.Api.build? settings.pathStart settings.crossOrigin .disabled).isSome) ∧
    ∃ settings, ServerSettings.ofEnvironment (inMemory
        [("CORS_ALLOWED_HEADERS", "all of them, *")]) = .ok settings ∧
      ¬ (Http.Api.build? settings.pathStart settings.crossOrigin .disabled).isSome := by
  constructor
  · obtain ⟨settings, h⟩ : ∃ settings, ServerSettings.ofEnvironment (inMemory
      [("API_PREFIX", "/shops/:shop"), ("CORS_ALLOWED_METHODS", "GET, *")]) = .ok settings :=
      ⟨_, rfl⟩
    refine ⟨settings, h, (served_iff h .disabled).2 ⟨?_, ?_, ?_⟩⟩
    · intro start hstart
      have : start = "/shops/:shop" := (Option.some.inj hstart).symm
      subst this
      decide +kernel
    · intro names hnames
      have : names = ["GET", "*"] := (Option.some.inj hnames).symm
      subst this
      decide +kernel
    · intro names hnames
      cases hnames
  · obtain ⟨settings, h⟩ : ∃ settings, ServerSettings.ofEnvironment (inMemory
      [("CORS_ALLOWED_HEADERS", "all of them, *")]) = .ok settings := ⟨_, rfl⟩
    refine ⟨settings, h, fun hserved => ?_⟩
    obtain ⟨-, -, hheaders⟩ := (served_iff h .disabled).1 hserved
    exact hheaders ["all of them", "*"] (by decide +kernel) (by decide +kernel)

/-- A prefix without a slash at its start loads, and cannot be served. -/
theorem loaded_not_served :
    ¬ ∀ (env : Environment) (settings : ServerSettings) (access : AccessSettings),
      ServerSettings.ofEnvironment env = .ok settings →
      (Http.Api.build? settings.pathStart settings.crossOrigin access).isSome := by
  intro hall
  have hserved := hall (inMemory [("API_PREFIX", "api")]) _ .disabled rfl
  exact absurd hserved (by decide +kernel)

end NotificationQueue.Startup
