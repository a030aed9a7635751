import Atlas.AdapterEngine

/-! The build-time check of a schema's endpoint and the call-time check of a URL, against each other. Both
    read one parsed URL and one lower-cased allowlist, so what is admitted when a tool is built is never
    refused when it is called. The routes compare percent-decoded paths and a request line carries the
    encoded one, so a URL that spells an allowed path in another way (`Respelled`) is let through. -/

namespace Atlas

/-- Where a request goes: the host, whose case does not matter, the port that is connected to, and the
    path of the request line. -/
structure Target where
  host : String
  port : ℕ
  path : String
  deriving DecidableEq, Repr

def Url.target (lower : String → String) (url : Url) : Target :=
  ⟨lower url.host, portOrHttps url.port, url.rawPath⟩

/-- The host is the one TLS is asked for; the address only says where the connection is made. -/
def PinnedRequest.target (lower : String → String) (request : PinnedRequest) : Target :=
  ⟨lower request.sniHostname, portOrHttps request.url.port, request.url.rawPath⟩

/-- The endpoint of one of the schemas, as it parses. -/
def IsEndpoint (parse : String → Except PyError Url) (schemas : List ToolSchema) (endpoint : Url) : Prop :=
  ∃ s ∈ schemas, parse s.endpoint = .ok endpoint

section checks
variable {parse : String → Except PyError Url} {lower : String → String} {allowlist : List String}
  {policy : EgressPolicy} {schemas : List ToolSchema} {url : String} {u : Url}

theorem assertHostAllowed_eq_ok : assertHostAllowed parse lower url allowlist = .ok () ↔
    ∃ u, parse url = .ok u ∧ u.scheme = "https" ∧ u.userinfo = "" ∧ lower u.host ≠ "" ∧
      lower u.host ∈ allowlist := by
  simp only [assertHostAllowed, Fallible.bind_eq_ok, Fallible.ite_error_eq_ok, not_not, and_true, ne_eq]

theorem assertAllowed_eq_ok : policy.assertAllowed lower u = .ok () ↔
    u.scheme = "https" ∧ u.userinfo = "" ∧ lower u.host ≠ "" ∧ lower u.host ∈ policy.allowedHosts ∧
      u.route lower ∈ policy.routes := by
  simp only [EgressPolicy.assertAllowed, Fallible.ite_error_eq_ok, not_not, and_true, ne_eq]

theorem prepareValidated_eq_ok : prepareValidated parse lower policy url = .ok u ↔
    parse url = .ok u ∧ policy.assertAllowed lower u = .ok () := by
  simp only [prepareValidated, Fallible.bind_eq_ok, Fallible.pure_eq_ok]
  constructor
  · rintro ⟨u, hparse, ⟨⟩, hallowed, rfl⟩
    exact ⟨hparse, hallowed⟩
  · rintro ⟨hparse, hallowed⟩
    exact ⟨u, hparse, (), hallowed, rfl⟩

/-- The pinned request is the validated URL at another address. -/
theorem preparePinned_eq_ok {resolver : Resolver} {request : PinnedRequest}
    (h : preparePinned parse lower resolver policy url = .ok request) :
    ∃ u, prepareValidated parse lower policy url = .ok u ∧ request.target lower = u.target lower := by
  simp only [preparePinned, Fallible.bind_eq_ok, Fallible.pure_eq_ok] at h
  obtain ⟨u, hu, ip, -, rfl⟩ := h
  exact ⟨u, hu, rfl⟩

theorem buildEgressPolicy_eq_ok (h : buildEgressPolicy parse lower schemas allowlist = .ok policy) :
    policy.allowedHosts = allowlist.map lower ∧
      ∀ route, route ∈ policy.routes ↔ ∃ e, IsEndpoint parse schemas e ∧ route = e.route lower := by
  simp only [buildEgressPolicy, Fallible.bind_eq_ok, Fallible.pure_eq_ok] at h
  obtain ⟨routes, hroutes, rfl⟩ := h
  refine ⟨rfl, fun route => ?_⟩
  rw [EgressPolicy.make, Fallible.mem_of_mapM_eq_ok hroutes]
  constructor
  · rintro ⟨s, hs, hroute⟩
    cases hparse : parse s.endpoint with
    | error e => rw [hparse] at hroute; cases hroute
    | ok e =>
      rw [hparse] at hroute
      cases hroute
      exact ⟨e, ⟨s, hs, hparse⟩, rfl⟩
  · rintro ⟨e, ⟨s, hs, hparse⟩, rfl⟩
    exact ⟨s, hs, by rw [hparse]; rfl⟩

end checks

/-! ### What is admitted is allowed -/

section built
variable {engine : AdapterEngine} {schemas : List ToolSchema} {policy : EgressPolicy}

theorem assertHostAllowed_of_buildTool {schema : ToolSchema} {tool : BaseTool Outside}
    (h : engine.buildTool schema = .ok tool) :
    assertHostAllowed engine.parseUrl engine.lower schema.endpoint engine.allowlist = .ok () := by
  simp only [AdapterEngine.buildTool, Fallible.bind_eq_ok] at h
  obtain ⟨⟨⟩, hsecurity, -⟩ := h
  unfold AdapterEngine.validateSecurity at hsecurity
  by_cases hread : schema.riskTier = .read ∧ schema.name ∉ engine.readTierAllowlist
  · rw [if_pos hread] at hsecurity
    cases hsecurity
  · rw [if_neg hread] at hsecurity
    by_cases hpermission : schema.riskTier ≠ .read ∧ schema.requiredPermission.getD "" = ""
    · rw [if_pos hpermission] at hsecurity
      cases hsecurity
    · rwa [if_neg hpermission] at hsecurity

/-- Every schema an engine builds a tool of. -/
def Built (engine : AdapterEngine) (schemas : List ToolSchema) : Prop :=
  ∀ s ∈ schemas, ∃ tool, engine.buildTool s = .ok tool

theorem endpoint_of_built (hbuilt : Built engine schemas) {s : ToolSchema} (hs : s ∈ schemas) :
    ∃ e, engine.parseUrl s.endpoint = .ok e ∧ e.scheme = "https" ∧ e.userinfo = "" ∧
      engine.lower e.host ≠ "" ∧ engine.lower e.host ∈ engine.allowlist := by
  obtain ⟨tool, htool⟩ := hbuilt s hs
  exact assertHostAllowed_eq_ok.mp (assertHostAllowed_of_buildTool htool)

theorem exists_egressPolicy (hbuilt : Built engine schemas) :
    ∃ policy, buildEgressPolicy engine.parseUrl engine.lower schemas engine.allowlist = .ok policy := by
  have hroutes : ∀ s ∈ schemas, ∃ route,
      (engine.parseUrl s.endpoint).map (Url.route engine.lower) = .ok route := by
    intro s hs
    obtain ⟨e, he, -⟩ := endpoint_of_built hbuilt hs
    exact ⟨_, by rw [he]; rfl⟩
  obtain ⟨routes, hroutes⟩ := Fallible.exists_mapM_eq_ok hroutes
  exact ⟨_, Fallible.bind_eq_ok.mpr ⟨routes, hroutes, rfl⟩⟩

section allowed
variable (hbuilt : Built engine schemas) (hlower : ∀ host ∈ engine.allowlist, engine.lower host = host)
  (hpolicy : buildEgressPolicy engine.parseUrl engine.lower schemas engine.allowlist = .ok policy)
include hbuilt hlower hpolicy

/-- A URL is accepted exactly when it is https without userinfo and has the route of an endpoint. -/
theorem prepareValidated_iff {url : String} {u : Url} :
    prepareValidated engine.parseUrl engine.lower policy url = .ok u ↔
      engine.parseUrl url = .ok u ∧ u.scheme = "https" ∧ u.userinfo = "" ∧
        ∃ e, IsEndpoint engine.parseUrl schemas e ∧ u.route engine.lower = e.route engine.lower := by
  obtain ⟨hhosts, hroutes⟩ := buildEgressPolicy_eq_ok hpolicy
  rw [prepareValidated_eq_ok, assertAllowed_eq_ok, hhosts, hroutes]
  constructor
  · rintro ⟨hparse, hscheme, huser, -, -, hroute⟩
    exact ⟨hparse, hscheme, huser, hroute⟩
  · rintro ⟨hparse, hscheme, huser, e, ⟨s, hs, he⟩, hroute⟩
    obtain ⟨e', he', -, -, hne, hmem⟩ := endpoint_of_built hbuilt hs
    rw [he, Except.ok.injEq] at he'
    subst he'
    have hhost : engine.lower u.host = engine.lower e.host := congrArg EgressRoute.host hroute
    refine ⟨hparse, hscheme, huser, hhost ▸ hne, ?_, e, ⟨s, hs, he⟩, hroute⟩
    exact List.mem_map.mpr ⟨_, hmem, (hlower _ hmem).trans hhost.symm⟩

/-- The host of an accepted URL is on the allowlist. -/
theorem host_mem_of_prepareValidated {url : String} {u : Url}
    (h : prepareValidated engine.parseUrl engine.lower policy url = .ok u) :
    engine.lower u.host ∈ engine.allowlist := by
  obtain ⟨-, -, -, e, ⟨s, hs, he⟩, hroute⟩ := (prepareValidated_iff hbuilt hlower hpolicy).mp h
  obtain ⟨e', he', -, -, -, hmem⟩ := endpoint_of_built hbuilt hs
  rw [he, Except.ok.injEq] at he'
  subst he'
  have hhost : engine.lower u.host = engine.lower e.host := congrArg EgressRoute.host hroute
  exact hhost ▸ hmem

end allowed

/-! ### The path that is sent -/

/-- What an accepted URL is promised to be. -/
structure ExactEgress (engine : AdapterEngine) (schemas : List ToolSchema) (u : Url) : Prop where
  scheme : u.scheme = "https"
  userinfo : u.userinfo = ""
  host : engine.lower u.host ∈ engine.allowlist
  target : ∃ e, IsEndpoint engine.parseUrl schemas e ∧ u.target engine.lower = e.target engine.lower

/-- The URL has the route of an endpoint, but every such endpoint encodes its path in another way. -/
def Respelled (engine : AdapterEngine) (schemas : List ToolSchema) (u : Url) : Prop :=
  u.scheme = "https" ∧ u.userinfo = "" ∧
    (∃ e, IsEndpoint engine.parseUrl schemas e ∧ u.route engine.lower = e.route engine.lower) ∧
    ∀ e, IsEndpoint engine.parseUrl schemas e → u.route engine.lower = e.route engine.lower →
      u.rawPath ≠ e.rawPath

theorem route_eq_of_target {decode : String → String}
    (hdecode : ∀ url u, engine.parseUrl url = .ok u → u.path = decode u.rawPath) {url : String} {u e : Url}
    (hu : engine.parseUrl url = .ok u) (he : IsEndpoint engine.parseUrl schemas e)
    (h : u.target engine.lower = e.target engine.lower) : u.route engine.lower = e.route engine.lower := by
  obtain ⟨s, -, hparse⟩ := he
  obtain ⟨hhost, hport, hraw⟩ := Target.mk.injEq .. ▸ h
  rw [Url.route, Url.route, hhost, hport, hdecode _ _ hu, hdecode _ _ hparse, hraw]

section exact
variable (hbuilt : Built engine schemas) (hlower : ∀ host ∈ engine.allowlist, engine.lower host = host)
  (hpolicy : buildEgressPolicy engine.parseUrl engine.lower schemas engine.allowlist = .ok policy)
include hbuilt hlower hpolicy

/-- Every schema's own endpoint is accepted. -/
theorem prepareValidated_endpoint {s : ToolSchema} (hs : s ∈ schemas) :
    ∃ u, prepareValidated engine.parseUrl engine.lower policy s.endpoint = .ok u := by
  obtain ⟨e, he, hscheme, huser, -, -⟩ := endpoint_of_built hbuilt hs
  exact ⟨e, (prepareValidated_iff hbuilt hlower hpolicy).mpr ⟨he, hscheme, huser, e, ⟨s, hs, he⟩, rfl⟩⟩

/-- An accepted URL goes where an endpoint goes, if one with its route is spelled as it is. -/
theorem exactEgress_iff_spelled {url : String} {u : Url}
    (h : prepareValidated engine.parseUrl engine.lower policy url = .ok u) :
    ExactEgress engine schemas u ↔
      ∃ e, IsEndpoint engine.parseUrl schemas e ∧ u.target engine.lower = e.target engine.lower := by
  obtain ⟨-, hscheme, huser, -⟩ := (prepareValidated_iff hbuilt hlower hpolicy).mp h
  exact ⟨fun hexact => hexact.target,
    fun htarget => ⟨hscheme, huser, host_mem_of_prepareValidated hbuilt hlower hpolicy h, htarget⟩⟩

end exact

end built

/-- Whatever the build-time check admits the call-time check accepts, and an accepted URL is https without
    userinfo, on the allowlist and has the route of an endpoint. It is sent where an endpoint is exactly
    when its path is not respelled; where the endpoints are spelled plainly, when its own is. -/
theorem egress_exact_iff (engine : AdapterEngine) (schemas : List ToolSchema) (decode : String → String)
    (hdecode : ∀ url u, engine.parseUrl url = .ok u → u.path = decode u.rawPath)
    (hbuilt : Built engine schemas) (hlower : ∀ host ∈ engine.allowlist, engine.lower host = host) :
    ∃ policy, buildEgressPolicy engine.parseUrl engine.lower schemas engine.allowlist = .ok policy ∧
      (∀ s ∈ schemas, ∃ u, prepareValidated engine.parseUrl engine.lower policy s.endpoint = .ok u) ∧
      (∀ url u, prepareValidated engine.parseUrl engine.lower policy url = .ok u →
        u.scheme = "https" ∧ u.userinfo = "" ∧ engine.lower u.host ∈ engine.allowlist ∧
          ∃ e, IsEndpoint engine.parseUrl schemas e ∧ u.route engine.lower = e.route engine.lower) ∧
      (∀ resolver url request,
        preparePinned engine.parseUrl engine.lower resolver policy url = .ok request →
          ∃ u, prepareValidated engine.parseUrl engine.lower policy url = .ok u ∧
            request.target engine.lower = u.target engine.lower) ∧
      (∀ url, (∀ u, prepareValidated engine.parseUrl engine.lower policy url = .ok u →
          ExactEgress engine schemas u) ↔
        ∀ u, engine.parseUrl url = .ok u → ¬Respelled engine schemas u) ∧
      ((∀ e, IsEndpoint engine.parseUrl schemas e → e.rawPath = e.path) →
        ∀ url u, prepareValidated engine.parseUrl engine.lower policy url = .ok u →
          (ExactEgress engine schemas u ↔ u.rawPath = u.path)) := by
  obtain ⟨policy, hpolicy⟩ := exists_egressPolicy hbuilt
  have haccepted : ∀ {url u}, prepareValidated engine.parseUrl engine.lower policy url = .ok u ↔ _ :=
    prepareValidated_iff hbuilt hlower hpolicy
  refine ⟨policy, hpolicy, fun s hs => prepareValidated_endpoint hbuilt hlower hpolicy hs,
    fun url u h => ?_, fun resolver url request h => preparePinned_eq_ok h, fun url => ⟨?_, ?_⟩, ?_⟩
  · obtain ⟨-, hscheme, huser, hroute⟩ := haccepted.mp h
    exact ⟨hscheme, huser, host_mem_of_prepareValidated hbuilt hlower hpolicy h, hroute⟩
  · rintro hexact u hu ⟨hscheme, huser, hroute, hspelled⟩
    obtain ⟨e, he, htarget⟩ := (hexact u (haccepted.mpr ⟨hu, hscheme, huser, hroute⟩)).target
    exact hspelled e he (route_eq_of_target hdecode hu he htarget)
      (congrArg Target.path htarget)
  · intro hspelled u h
    obtain ⟨hu, hscheme, huser, hroute⟩ := haccepted.mp h
    rw [exactEgress_iff_spelled hbuilt hlower hpolicy h]
    by_contra hnone
    refine hspelled u hu ⟨hscheme, huser, hroute, fun e he hsame hraw => hnone ⟨e, he, ?_⟩⟩
    obtain ⟨-, hhost, hport, -⟩ := EgressRoute.mk.injEq .. ▸ hsame
    rw [Url.target, Url.target, hhost, hport, hraw]
  · intro hplain url u h
    obtain ⟨hu, -, -, e, he, hroute⟩ := haccepted.mp h
    obtain ⟨-, hhost, hport, hpath⟩ := EgressRoute.mk.injEq .. ▸ hroute
    rw [exactEgress_iff_spelled hbuilt hlower hpolicy h]
    constructor
    · rintro ⟨e', ⟨s, hs, hparse⟩, htarget⟩
      have hraw : u.rawPath = e'.rawPath := congrArg Target.path htarget
      rw [hdecode _ _ hu, hraw, ← hdecode _ _ hparse]
      exact hplain e' ⟨s, hs, hparse⟩
    · intro hown
      exact ⟨e, he, by rw [Url.target, Url.target, hhost, hport, hown, hpath, hplain e he]⟩

/-! ### The packaged endpoint -/

/-- The two URLs below as an HTTP client reads them. -/
def parsePackaged (url : String) : Except PyError Url :=
  if url = "https://Slack.com:0/api/chat.postMessage" ∨ url = "https://slack.com/api/chat.postMessage" then
    .ok { scheme := "https", userinfo := "", host := "slack.com"
          port := if url = "https://slack.com/api/chat.postMessage" then none else some 0
          path := "/api/chat.postMessage" }
  else if url = "https://slack.com/api%2Fchat.postMessage" then
    .ok { scheme := "https", userinfo := "", host := "slack.com", path := "/api/chat.postMessage"
          rawPath := "/api%2Fchat.postMessage" }
  else .error ⟨"InvalidURL", "invalid URL"⟩

/-- The percent-decoding of their paths. -/
def decodePackaged (raw : String) : String :=
  if raw = "/api%2Fchat.postMessage" then "/api/chat.postMessage" else raw

/-- An engine that reads them. -/
def packagedEngine : AdapterEngine where
  parseUrl := parsePackaged
  argsModel _ args := .ok args
  lower s := s
  configured := true
  allowlist := ["slack.com"]

theorem packaged_built : Built packagedEngine [slackPostSchema] := by
  intro s hs
  rw [List.mem_singleton.mp hs]
  exact ⟨_, rfl⟩

/-- Another case and an explicit port 0 lead to the packaged endpoint all the same. -/
theorem egress_exact_mixedCase : ∃ policy u,
    buildEgressPolicy packagedEngine.parseUrl packagedEngine.lower [slackPostSchema]
      packagedEngine.allowlist = .ok policy ∧
    prepareValidated packagedEngine.parseUrl packagedEngine.lower policy
      "https://Slack.com:0/api/chat.postMessage" = .ok u ∧ ExactEgress packagedEngine [slackPostSchema] u := by
  have hdecode : ∀ url u, packagedEngine.parseUrl url = .ok u →
      u.path = decodePackaged u.rawPath := by
    intro url u h
    simp only [packagedEngine, parsePackaged] at h
    split at h
    · cases h; rfl
    · split at h
      · cases h; rfl
      · cases h
  obtain ⟨policy, hpolicy, -, -, -, -, hplain⟩ := egress_exact_iff packagedEngine [slackPostSchema]
    decodePackaged hdecode packaged_built (fun host _ => rfl)
  have hendpoint : ∀ e, IsEndpoint packagedEngine.parseUrl [slackPostSchema] e → e.rawPath = e.path := by
    rintro e ⟨s, hs, he⟩
    rw [List.mem_singleton.mp hs] at he
    cases he
    rfl
  obtain ⟨policy', hpolicy'⟩ : ∃ policy', buildEgressPolicy packagedEngine.parseUrl packagedEngine.lower
      [slackPostSchema] packagedEngine.allowlist = .ok policy' ∧
      ∃ u, prepareValidated packagedEngine.parseUrl packagedEngine.lower policy'
        "https://Slack.com:0/api/chat.postMessage" = .ok u ∧ u.rawPath = u.path := ⟨_, rfl, _, rfl, rfl⟩
  obtain ⟨hbuild, u, hu, hraw⟩ := hpolicy'
  rw [hpolicy, Except.ok.injEq] at hbuild
  subst hbuild
  exact ⟨policy, u, hpolicy, hu, (hplain hendpoint _ u hu).mpr hraw⟩

/-- The slash of the packaged path in its percent-encoded form is accepted and sent as it is. -/
theorem egress_respelled : ¬∀ (engine : AdapterEngine) (schemas : List ToolSchema),
    Built engine schemas → (∀ host ∈ engine.allowlist, engine.lower host = host) →
    ∃ policy, buildEgressPolicy engine.parseUrl engine.lower schemas engine.allowlist = .ok policy ∧
      (∀ s ∈ schemas, ∃ u, prepareValidated engine.parseUrl engine.lower policy s.endpoint = .ok u) ∧
      ∀ url u, prepareValidated engine.parseUrl engine.lower policy url = .ok u →
        ExactEgress engine schemas u := by
  intro h
  obtain ⟨policy, hpolicy, -, hexact⟩ := h packagedEngine [slackPostSchema] packaged_built fun host _ => rfl
  have hu : ∃ u, prepareValidated packagedEngine.parseUrl packagedEngine.lower policy
      "https://slack.com/api%2Fchat.postMessage" = .ok u ∧ u.rawPath = "/api%2Fchat.postMessage" := by
    cases hpolicy
    exact ⟨_, rfl, rfl⟩
  obtain ⟨u, hu, hraw⟩ := hu
  obtain ⟨e, ⟨s, hs, he⟩, htarget⟩ := (hexact _ u hu).target
  rw [List.mem_singleton.mp hs] at he
  cases he
  have hpath : u.rawPath = "/api/chat.postMessage" := congrArg Target.path htarget
  rw [hraw] at hpath
  exact absurd hpath (by decide)

end Atlas
