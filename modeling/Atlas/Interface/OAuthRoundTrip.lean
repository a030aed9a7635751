import Atlas.Governance.KeyedVault
import Atlas.Interface.CallbackErrors
import Atlas.Interface.OAuthConnect

/-! The way from a connect to its callback and into the vault. What a connect signs is accepted when it comes
    back in time: by GET from the browser that has the cookie, by POST from the caller (`callback_of_returns`).
    A nonce, which is signed too, is no state (`not_reads_nonce`). -/

namespace Atlas

open Text

variable {C V : Type}

/-- A connect that was answered: the browser that has the answer, and whom it is for. -/
structure Connect (C : Type) where
  client : C
  now : ℤ
  bytes : Fin 16 → UInt8
  request : ProviderRequest
  principal : Principal
  provider : OAuthProvider
  email : String

def Connect.nonce (i : Connect C) : String := tokenUrlsafe i.bytes

def Connect.payload (rt : OAuthRuntime) (i : Connect C) : StatePayload :=
  connectPayload rt.lowering i.principal i.provider i.email i.now i.bytes

/-- Base64 digits that lack their padding are not read. -/
def OAuthRuntime.RefusesUnpadded (rt : OAuthRuntime) : Prop :=
  ∀ s : String, (∀ c ∈ s.toList, c ∈ Base64.ALPHABET) → s.toList.length % 4 ≠ 0 → ∀ v, rt.loads s ≠ .ok v

/-- What is said of an answered connect: whom it is for, that it is answered, and that its state is read back. -/
structure Answered (rt : OAuthRuntime) (app : ConnectApp V) (i : Connect C) (response : ConnectResponse) :
    Prop where
  binding : connectBinding rt app i.request = .ok (i.principal, i.provider, i.email)
  response : oauthConnect rt app i.now i.bytes i.request = .ok response
  reads : rt.loads (i.payload rt).body = .ok (.obj (i.payload rt).fields)

/-- A callback that comes back from a connect: with its provider and its state, in time, and by GET with the
    cookie and no token, or by POST from the caller. -/
structure Returns (rt : OAuthRuntime) (app : ConnectApp V) (i : Connect C) (response : ConnectResponse)
    (method : CallbackMethod) (now now' : ℤ) (r : CallbackRequest) : Prop where
  provider : providerNamed rt.lowering r.provider = .ok i.provider
  state : ∃ state, issueOauthState rt app.settings (i.payload rt) = .ok state ∧
    r.state = PyText.ofString state
  prompt : now ≤ i.now + STATE_TTL_SECONDS ∧ now' ≤ i.now + STATE_TTL_SECONDS
  identity : method = .get ∧ NoToken rt app.toOAuthApp r ∧ r.pendingCookie = some response.cookie ∨
    method = .post ∧ ∃ caller, getRequestPrincipal rt.lowering app.authenticator r.toRequest = .ok caller ∧
      caller.identity = i.principal.identity

section connect
variable {rt : OAuthRuntime} {app : ConnectApp V} {i : Connect C} {response : ConnectResponse}

/-! ### What a connect has handed out -/

/-- The nonce of a state that can be read back. -/
theorem nonceFromState_eq (hrt : rt.Documented) {p : StatePayload}
    (hreads : rt.loads p.body = .ok (.obj p.fields)) (hne : p.nonce ≠ "") (key : String) :
    nonceFromState rt (p.body ++ "." ++ rt.hmac key p.body) = .ok p.nonce := by
  have hsplit : rsplit? '.' (p.body ++ "." ++ rt.hmac key p.body) = some (p.body, rt.hmac key p.body) :=
    rsplit?_append (hrt.no_dot key p.body)
  simp only [nonceFromState, hsplit, Option.map_some, Option.getD_some, hreads, StatePayload.field_nonce,
    if_neg hne]

theorem Connect.nonce_ne (i : Connect C) : i.nonce ≠ "" := by
  intro h
  have hlength : i.nonce.toList.length = 22 := length_tokenUrlsafe i.bytes
  rw [h] at hlength
  exact absurd hlength (by decide)

/-- What a connect is answered with, its state being read back. -/
theorem oauthConnect_eq (hrt : rt.Documented)
    (hbinding : connectBinding rt app i.request = .ok (i.principal, i.provider, i.email))
    (hreads : rt.loads (i.payload rt).body = .ok (.obj (i.payload rt).fields)) {key : String}
    (hkey : oauthStateKey app.settings = .ok key) :
    oauthConnect rt app i.now i.bytes i.request = (app.client i.provider).map fun _ => {
      json := occursIn "application/json" i.request.accept
      url := app.authorizationUrl i.provider
        ((i.payload rt).body ++ "." ++ rt.hmac key (i.payload rt).body)
      cookie := rt.hmac key i.nonce
      kwargs := { secure := rt.lowering.lower (i.request.hostname.getD "") ∉ LOCAL_HOSTS } } := by
  have hnonce := nonceFromState_eq hrt hreads i.nonce_ne key
  simp only [oauthConnect, hbinding, Fallible.ok_bind, issueOauthState, signPendingNonce, hkey]
  cases app.client i.provider with
  | error e => rfl
  | ok client =>
    change ((nonceFromState rt ((i.payload rt).body ++ "." ++ rt.hmac key (i.payload rt).body)).mapError
      CallbackError.uncaught >>= _) = _
    rw [hnonce]
    rfl

/-- The cookie of a connect is the HMAC of its nonce. -/
theorem Answered.cookie (h : Answered rt app i response) (hrt : rt.Documented) {key : String}
    (hkey : oauthStateKey app.settings = .ok key) : response.cookie = rt.hmac key i.nonce := by
  have hresponse := h.response
  rw [oauthConnect_eq hrt h.binding h.reads hkey, Fallible.map_eq_ok] at hresponse
  obtain ⟨client, -, rfl⟩ := hresponse
  rfl

/-- The digits of a nonce lack the padding that reading them takes. -/
theorem not_reads_nonce (hpadding : rt.RefusesUnpadded) (i : Connect C) (v : Json) :
    rt.loads i.nonce ≠ .ok v := by
  refine hpadding _ (fun c hc => mem_alphabet_tokenUrlsafe hc) ?_ v
  rw [length_tokenUrlsafe]
  decide

/-! ### What the callback makes of it -/

/-- A caller that has proven itself is not blank, and neither is its organisation. -/
theorem strip_of_authenticated {low : Lowering} {authenticator : Option OidcAuthenticator} {request : Request}
    {p : Principal} (h : Authenticated low authenticator request p) :
    strip p.userId ≠ "" ∧ ∀ org, p.orgId = some org → strip org ≠ "" := by
  have hblank : ∀ {s org : String}, orNone (strip s) = some org → strip org ≠ "" := by
    intro s org h
    obtain ⟨rfl, hne⟩ := orNone_eq_some.mp h
    rwa [strip_strip]
  cases h with
  | token _ _ h =>
    simp only [OidcAuthenticator.principalFromToken, Fallible.bind_eq_ok, Fallible.ite_error_eq_ok,
      Fallible.pure_eq_ok] at h
    obtain ⟨claims, -, hempty, -, rfl⟩ := h
    refine ⟨by rwa [strip_strip], fun org horg => ?_⟩
    simp only at horg
    split at horg
    next => cases horg
    next => exact hblank horg
  | headers _ hanon =>
    by_cases hno : strip (request.userHeader.getD "") = "" ∨
        strip (request.userHeader.getD "") = Principal.anonymous.userId
    · exact absurd (if_pos hno) hanon
    · rw [principalFromHeaders, if_neg hno]
      refine ⟨?_, fun org horg => hblank horg⟩
      rw [strip_strip]
      exact fun hempty => hno (Or.inl hempty)

/-- The payload of a connect names its caller. -/
theorem Answered.names (h : Answered rt app i response) : ∃ org, i.principal.orgId = some org ∧
    strip org ≠ "" ∧ strip i.principal.userId ≠ "" ∧
    Json.field? "user_id" (i.payload rt).fields = some (.str i.principal.userId) ∧
    Json.field? "org_id" (i.payload rt).fields = some (.str org) := by
  obtain ⟨hauthenticated, hsome, -, -⟩ := connectBinding_eq_ok h.binding
  obtain ⟨org, horg⟩ := Option.ne_none_iff_exists'.mp hsome
  obtain ⟨huser, hblank⟩ := strip_of_authenticated hauthenticated
  refine ⟨org, horg, hblank org horg, huser, rfl, ?_⟩
  rw [StatePayload.field_orgId]
  simp [Connect.payload, connectPayload, horg]

/-- The state of a connect is accepted in time. -/
theorem Answered.consumes (h : Answered rt app i response) (hrt : rt.Documented) {state : String}
    (hstate : issueOauthState rt app.settings (i.payload rt) = .ok state) {t : ℤ}
    (ht : t ≤ i.now + STATE_TTL_SECONDS) :
    consumeOauthState rt app.settings t (PyText.ofString state) = .ok (i.payload rt).fields := by
  simp only [issueOauthState, Fallible.bind_eq_ok, Fallible.pure_eq_ok] at hstate
  obtain ⟨key, hkey, rfl⟩ := hstate
  exact (consume_eq_ok_iff hrt).mpr ⟨⟨_, key, hkey, rfl, h.reads⟩, _, rfl, ht⟩

/-- The pending cookie of a connect is recognised. -/
theorem Answered.recognises (h : Answered rt app i response) (hrt : rt.Documented) {request : Request}
    (hcookie : request.pendingCookie = some response.cookie) {key : String}
    (hkey : oauthStateKey app.settings = .ok key) :
    hasPendingCookie rt app.settings request (i.payload rt).fields = .ok true := by
  have hmac := h.cookie hrt hkey
  have hsome : (some response.cookie).bind orNone = some response.cookie :=
    orNone_eq_some.mpr ⟨rfl, hmac ▸ hrt.hmac_ne _ _⟩
  have hdigest : compareDigest (rt.hmac key i.nonce) response.cookie = .ok true :=
    compareDigest_eq_ok.mpr ⟨hrt.ascii _ _, hmac ▸ hrt.ascii _ _, by simp [hmac]⟩
  simp only [hasPendingCookie, hcookie, hsome, verifyOauthPendingCookie, StatePayload.field_nonce]
  rw [if_neg (show (i.payload rt).nonce ≠ "" from i.nonce_ne), hkey]
  exact hdigest

/-- A callback that comes back is bound to the user of the connect. -/
theorem binding_of_returns (hrt : rt.Documented) (h : Answered rt app i response) {vault : CredentialVault V}
    (happ : app.vault = some vault) {method : CallbackMethod} {now now' : ℤ} {r : CallbackRequest}
    (hreturns : Returns rt app i response method now now' r) :
    ∃ bound, bound.identity = i.principal.identity ∧
      callbackBinding rt app.toOAuthApp now r method = .ok ⟨vault, i.provider, bound⟩ := by
  obtain ⟨state, hissued, hstate⟩ := hreturns.state
  have hconsume := h.consumes hrt hissued hreturns.prompt.1
  rw [← hstate] at hconsume
  have hvault : app.toOAuthApp.requireVault = .ok vault := by rw [OAuthApp.requireVault, happ]
  obtain ⟨org, horg, horgne, huserne, huser, horgfield⟩ := h.names
  rcases hreturns.identity with ⟨rfl, hno, hcookie⟩ | ⟨rfl, caller, hcaller, hidentity⟩
  · obtain ⟨key, hkey, -⟩ := Fallible.bind_eq_ok.mp hissued
    have hprincipal : principalFromPayload (i.payload rt).fields =
        .ok { userId := i.principal.userId, orgId := some org } := by
      simp only [principalFromPayload, huser, horgfield, if_neg huserne, if_neg horgne]
    have hresolve : resolveCallbackPrincipal rt app.toOAuthApp r (i.payload rt).fields =
        .ok { userId := i.principal.userId, orgId := some org } := by
      rw [resolve_of_noToken hno, h.recognises hrt hcookie hkey]
      simp only [Except.mapError, Fallible.ok_bind, if_true, hprincipal]
    refine ⟨{ userId := i.principal.userId, orgId := some org }, ?_, ?_⟩
    · rw [Principal.identity, Principal.identity, horg]
    · simp only [callbackBinding, getBinding, hvault, hreturns.provider, hconsume, hresolve, Except.mapError,
        Fallible.ok_bind]
      rfl
  · have hsame : caller.userId = i.principal.userId ∧ caller.orgId = some org :=
      ⟨congrArg Prod.snd hidentity, (congrArg Prod.fst hidentity).trans horg⟩
    have hnames : NamesPrincipal (i.payload rt).fields caller := by
      refine ⟨?_, hsame.1 ▸ huser, org, ?_, hsame.2, horgfield⟩
      · rw [hsame.1]
        exact ne_empty_of_strip huserne
      · exact ne_empty_of_strip horgne
    obtain ⟨bound, hbound⟩ := (exists_principalFromState_iff hnames.1).mpr hnames
    obtain rfl := (principalFromState_eq_ok hbound).1
    refine ⟨_, hidentity, ?_⟩
    simp only [callbackBinding, postBinding, hcaller, hvault, hreturns.provider, hconsume, hbound, Except.mapError,
      Fallible.ok_bind]
    rfl

/-- The state is accepted the second time, with the email of the connect. -/
theorem Answered.rebinds (h : Answered rt app i response) (hrt : rt.Documented)
    (hlower : ∀ s, rt.lowering.lower s = "" → s = "") {state : String}
    (hstate : issueOauthState rt app.settings (i.payload rt) = .ok state) {t : ℤ}
    (ht : t ≤ i.now + STATE_TTL_SECONDS) {bound : Principal} (hbound : bound.identity = i.principal.identity) :
    verifiedBindingEmail rt app.settings t i.provider (PyText.ofString state) bound = .ok i.email := by
  obtain ⟨-, -, -, hresolved⟩ := connectBinding_eq_ok h.binding
  have hnormal : normalizeEmail rt.lowering i.email = i.email := normalizeEmail_of_resolve hresolved
  have hemail : Json.field? "binding_email" (i.payload rt).fields = some (.str i.email) :=
    congrArg (fun email => some (Json.str email)) hnormal
  have hprovider : Json.field? "provider" (i.payload rt).fields = some (.str i.provider.value) := rfl
  obtain ⟨org, horg, -, -, huserfield, horgfield⟩ := h.names
  have huser : bound.userId = i.principal.userId := congrArg Prod.snd hbound
  have horg' : bound.orgId = some org := (congrArg Prod.fst hbound).trans horg
  simp only [verifiedBindingEmail, h.consumes hrt hstate ht, Fallible.ok_bind, fieldIs, hprovider, huserfield,
    horgfield, huser, horg', requireBindingEmail, hemail, Option.getD_some,
    if_neg (strip_email_ne hlower hresolved), hnormal]
  simp

/-- With a code for the account of the connect's email, it stores that account's credential. -/
theorem callback_of_returns (hrt : rt.Documented) (hlower : ∀ s, rt.lowering.lower s = "" → s = "")
    (h : Answered rt app i response) {vault : CredentialVault V} (happ : app.vault = some vault)
    {method : CallbackMethod} {now now' : ℤ} {r : CallbackRequest}
    (hreturns : Returns rt app i response method now now' r) {client : OAuthClient}
    {exchange : OAuthExchangeResult} {metadata : List (String × String)}
    (hclient : app.client i.provider = .ok client) (hexchange : client.exchangeCode r.code = .ok exchange)
    (hemail : providerEmail rt.lowering app.apis i.provider client exchange = .ok (i.email, metadata)) (v : V) :
    ∃ bound, bound.identity = i.principal.identity ∧
      (oauthCallback rt app.toOAuthApp now now' r v method).2 =
        (vault.put bound i.provider (exchange.credential.withMetadata metadata) v).2 ∧
      ((vault.put bound i.provider (exchange.credential.withMetadata metadata) v).1 = .ok () →
        ∃ url, (oauthCallback rt app.toOAuthApp now now' r v method).1 = .ok url) := by
  obtain ⟨bound, hidentity, hbinding⟩ := binding_of_returns hrt h happ hreturns
  have hcallback : oauthCallback rt app.toOAuthApp now now' r v method =
      completeOauthCallback rt app.toOAuthApp now' r (.ok ⟨vault, i.provider, bound⟩) v := by
    rw [← hbinding]
    cases method <;> rfl
  have hcredential : callbackCredential rt app.toOAuthApp now' i.provider r.code r.state bound =
      .ok (exchange.credential.withMetadata metadata) := by
    obtain ⟨state, hissued, hstate⟩ := hreturns.state
    have hrebinds := h.rebinds hrt hlower hissued hreturns.prompt.2 hidentity
    rw [← hstate] at hrebinds
    simp only [callbackCredential, hrebinds, Except.mapError, Fallible.ok_bind, hclient, hexchange,
      assertProviderEmailBinding, hemail, assertEmailsMatch, ne_eq, not_true_eq_false, if_false]
    rfl
  have hchecked : checkedCallback rt app.toOAuthApp now' r (.ok ⟨vault, i.provider, bound⟩) =
      .ok (⟨vault, i.provider, bound⟩, exchange.credential.withMetadata metadata) := by
    simp only [checkedCallback, Fallible.ok_bind, hcredential]
    rfl
  refine ⟨bound, hidentity, ?_⟩
  rw [hcallback, completeOauthCallback, hchecked]
  simp only
  split
  next heq => exact ⟨by rw [heq], fun _ => ⟨_, rfl⟩⟩
  next heq => exact ⟨by rw [heq], fun hput => by rw [heq] at hput; cases hput⟩

end connect

end Atlas
