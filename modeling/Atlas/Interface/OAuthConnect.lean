import Atlas.Interface.OAuthRoutes
import Atlas.Lib.AsciiJson

/-! The other OAuth routes. A connect signs what the callback is going to check: the caller and its email, the
    provider, a nonce and an expiry. The browser gets the state with the URL, and the nonce's HMAC, under the
    same key, as a cookie. What keeps the two apart is base64: the state's body is padded and a nonce is not
    (`length_tokenUrlsafe`). -/

namespace Atlas

open Text

variable {V : Type}

/-! ### The state that is issued -/

/-- `secrets.token_urlsafe(16)`, of the random bytes. -/
def tokenUrlsafe (bytes : Fin 16 → UInt8) : String := String.ofList (Base64.unpadded (List.ofFn bytes))

structure StatePayload where
  userId : String
  orgId : Option String
  provider : OAuthProvider
  bindingEmail : String
  nonce : String
  exp : ℤ
  deriving DecidableEq

namespace StatePayload
variable (p : StatePayload)

/-- The members, by their keys. -/
def fields : Args :=
  [("binding_email", .str p.bindingEmail), ("exp", .int p.exp), ("nonce", .str p.nonce),
    ("org_id", p.orgId.elim .null .str), ("provider", .str p.provider.value), ("user_id", .str p.userId)]

/-- `json.dumps(payload, sort_keys=True)`. -/
def dumps : String :=
  "\x7b\"binding_email\": " ++ dumpAscii p.bindingEmail ++ ", \"exp\": " ++ toString p.exp ++
    ", \"nonce\": " ++ dumpAscii p.nonce ++ ", \"org_id\": " ++ (match p.orgId with
      | none => "null"
      | some orgId => dumpAscii orgId) ++
    ", \"provider\": " ++ dumpAscii p.provider.value ++ ", \"user_id\": " ++ dumpAscii p.userId ++ "\x7d"

/-- `urlsafe_b64encode` of the encoded dump. -/
def body : String := String.ofList (Base64.urlsafeB64encode p.dumps.toUTF8.data.toList)

@[simp] theorem field_bindingEmail : Json.field? "binding_email" p.fields = some (.str p.bindingEmail) := rfl

@[simp] theorem field_exp : Json.field? "exp" p.fields = some (.int p.exp) := rfl

@[simp] theorem field_nonce : Json.field? "nonce" p.fields = some (.str p.nonce) := rfl

@[simp] theorem field_orgId : Json.field? "org_id" p.fields = some (p.orgId.elim .null .str) := rfl

@[simp] theorem field_provider : Json.field? "provider" p.fields = some (.str p.provider.value) := rfl

@[simp] theorem field_userId : Json.field? "user_id" p.fields = some (.str p.userId) := rfl

end StatePayload

def STATE_TTL_SECONDS : ℤ := 600

/-- The payload of a connect. -/
def connectPayload (low : Lowering) (principal : Principal) (provider : OAuthProvider) (bindingEmail : String)
    (now : ℤ) (bytes : Fin 16 → UInt8) : StatePayload where
  userId := principal.userId
  orgId := principal.orgId
  provider := provider
  bindingEmail := normalizeEmail low bindingEmail
  nonce := tokenUrlsafe bytes
  exp := now + STATE_TTL_SECONDS

/-- `issue_oauth_state`. -/
def issueOauthState (rt : OAuthRuntime) (settings : OAuthSettings) (payload : StatePayload) :
    Except PyError String := do
  let key ← oauthStateKey settings
  return payload.body ++ "." ++ rt.hmac key payload.body

def signPendingNonce (rt : OAuthRuntime) (settings : OAuthSettings) (nonce : String) :
    Except PyError String := do
  let key ← oauthStateKey settings
  return rt.hmac key nonce

/-- `_nonce_from_state`. -/
def nonceFromState (rt : OAuthRuntime) (state : String) : Except PyError String :=
  match rt.loads (((rsplit? '.' state).map (·.1)).getD state) with
  | .error e => .error e
  | .ok (.obj payload) =>
    match Json.field? "nonce" payload with
    | some (.str nonce) => if nonce = "" then .error (oauthStateError "state missing nonce") else .ok nonce
    | _ => .error (oauthStateError "state missing nonce")
  | .ok v => .error ⟨"AttributeError", "'" ++ v.typeName ++ "' object has no attribute 'get'"⟩

/-! ### Connect -/

/-- A request for a provider, with what else a connect reads. -/
structure ProviderRequest extends Request where
  provider : String
  emailHeader : Option String := none
  hostname : Option String := none
  accept : String := ""

/-- What a connect needs of the app besides: the claim that is the email, and where a provider authorizes. -/
structure ConnectApp (V : Type) extends OAuthApp V where
  emailClaim : String := "email"
  authorizationUrl : OAuthProvider → String → String

/-- `email_from_token`. -/
def OidcAuthenticator.emailFromToken (auth : OidcAuthenticator) (emailClaim token : String) :
    Except AuthFailure (Option String) := do
  let claims ← auth.verifiedClaims token
  return match (Json.field? emailClaim claims).getD .null with
    | .null => none
    | raw => orNone (strip raw.pyStr)

/-- `resolve_binding_email`: the email of the verified token, or of the header shim. -/
def resolveBindingEmail (rt : OAuthRuntime) (app : ConnectApp V) (r : ProviderRequest) :
    Except PyError String :=
  match bearerToken rt.lowering r.toRequest, app.authenticator with
  | some token, some auth =>
    match auth.emailFromToken app.emailClaim token with
    | .error (.dependency _) => .error (oauthBindingError "authentication service unavailable")
    | .error (.auth _) => .error (oauthBindingError "invalid or expired token")
    | .error (.uncaught e) => .error e
    | .ok none => .error (oauthBindingError "email claim required for OAuth connect")
    | .ok (some email) => .ok (normalizeEmail rt.lowering email)
  | _, _ =>
    let raw := strip (r.emailHeader.getD "")
    if raw = "" then .error (oauthBindingError "email claim required for OAuth connect")
    else .ok (normalizeEmail rt.lowering raw)

/-- Whom a connect is for: the caller, the provider, and the caller's email. -/
def connectBinding (rt : OAuthRuntime) (app : ConnectApp V) (r : ProviderRequest) :
    Except CallbackError (Principal × OAuthProvider × String) := do
  let principal ← (getRequestPrincipal rt.lowering app.authenticator r.toRequest).mapError .http
  let provider ← providerNamed rt.lowering r.provider
  if principal.orgId = none then .error (.http ⟨400, "org_id is required for OAuth connect."⟩)
  else do
    let email ← (resolveBindingEmail rt app r).mapError (badRequestOn ["OAuthBindingError"])
    return (principal, provider, email)

/-- `pending_cookie_kwargs`. -/
structure PendingCookieKwargs where
  httponly : Bool := true
  samesite : String := "lax"
  secure : Bool
  maxAge : ℕ := 600

def LOCAL_HOSTS : List String := ["127.0.0.1", "localhost"]

/-- A redirect, or its URL as JSON, with the pending cookie. -/
structure ConnectResponse where
  json : Bool
  url : String
  cookie : String
  kwargs : PendingCookieKwargs

/-- GET /oauth/{provider}/connect, with the random bytes it draws. -/
def oauthConnect (rt : OAuthRuntime) (app : ConnectApp V) (now : ℤ) (bytes : Fin 16 → UInt8)
    (r : ProviderRequest) : Except CallbackError ConnectResponse := do
  let (principal, provider, email) ← connectBinding rt app r
  let payload := connectPayload rt.lowering principal provider email now bytes
  let state ← (issueOauthState rt app.settings payload).mapError .uncaught
  let _client ← app.client provider
  let nonce ← (nonceFromState rt state).mapError .uncaught
  let cookie ← (signPendingNonce rt app.settings nonce).mapError .uncaught
  return {
    json := occursIn "application/json" r.accept
    url := app.authorizationUrl provider state
    cookie := cookie
    kwargs := { secure := rt.lowering.lower (r.hostname.getD "") ∉ LOCAL_HOSTS } }

/-! ### Revoke -/

/-- Whose credential a revoke deletes, and where. -/
def revokeBinding (rt : OAuthRuntime) (app : OAuthApp V) (r : ProviderRequest) :
    Except CallbackError (Binding V) := do
  let principal ← (getRequestPrincipal rt.lowering app.authenticator r.toRequest).mapError .http
  let vault ← app.requireVault
  let provider ← providerNamed rt.lowering r.provider
  return ⟨vault, provider, principal⟩

/-- DELETE /oauth/{provider}. -/
def oauthRevoke (rt : OAuthRuntime) (app : OAuthApp V) (r : ProviderRequest) (v : V) :
    Except CallbackError String × V :=
  match revokeBinding rt app r with
  | .error e => (.error e, v)
  | .ok b =>
    match b.vault.delete b.bound b.provider v with
    | (.ok (), v) => (.ok b.provider.value, v)
    | (.error e, v) => (.error (vaultError e), v)

/-! ### What a connect hands out -/

theorem tokenUrlsafe_toList (bytes : Fin 16 → UInt8) :
    (tokenUrlsafe bytes).toList = (Base64.sextets (List.ofFn bytes)).map Base64.digit := by
  rw [tokenUrlsafe, String.toList_ofList, Base64.unpadded_eq]

/-- Sixteen bytes are twenty-two digits: two short of a multiple of four. -/
theorem length_tokenUrlsafe (bytes : Fin 16 → UInt8) : (tokenUrlsafe bytes).toList.length = 22 := by
  rw [tokenUrlsafe_toList, List.length_map]
  simp [List.ofFn_succ, Base64.sextets]

theorem mem_alphabet_tokenUrlsafe {bytes : Fin 16 → UInt8} {c : Char} (h : c ∈ (tokenUrlsafe bytes).toList) :
    c ∈ Base64.ALPHABET := by
  rw [tokenUrlsafe_toList] at h
  obtain ⟨n, hn, rfl⟩ := List.mem_map.mp h
  exact Base64.digit_mem (Base64.lt_of_mem_sextets hn)

/-- A body is padded to a multiple of four, so it is no nonce. -/
theorem length_body (p : StatePayload) : p.body.toList.length % 4 = 0 := by
  rw [StatePayload.body, String.toList_ofList]
  exact Base64.length_urlsafeB64encode _

theorem tokenUrlsafe_ne_body (bytes : Fin 16 → UInt8) (p : StatePayload) : tokenUrlsafe bytes ≠ p.body := by
  intro h
  have hlength := length_body p
  rw [← h, length_tokenUrlsafe] at hlength
  exact absurd hlength (by decide)

variable {rt : OAuthRuntime} {app : ConnectApp V} {r : ProviderRequest}

/-- The email of a connect is normalised. -/
theorem normalizeEmail_of_resolve {email : String} (h : resolveBindingEmail rt app r = .ok email) :
    normalizeEmail rt.lowering email = email := by
  unfold resolveBindingEmail at h
  split at h
  next token auth =>
    split at h <;> cases h
    exact normalizeEmail_normalizeEmail ..
  next =>
    simp only [Fallible.ite_error_eq_ok, Except.ok.injEq] at h
    rw [← h.2, normalizeEmail_normalizeEmail]

/-- The email of a connect is not blank, where lower-casing empties no text. -/
theorem strip_email_ne (hlower : ∀ s, rt.lowering.lower s = "" → s = "") {email : String}
    (h : resolveBindingEmail rt app r = .ok email) : strip email ≠ "" := by
  have hblank : ∀ {s : String}, strip s ≠ "" → strip (normalizeEmail rt.lowering s) ≠ "" := by
    intro s hs hempty
    rw [normalizeEmail, rt.lowering.strip_lower, strip_strip] at hempty
    exact hs (hlower _ hempty)
  unfold resolveBindingEmail at h
  split at h
  next token auth =>
    split at h <;> cases h
    next claimed htoken =>
      simp only [OidcAuthenticator.emailFromToken, Fallible.bind_eq_ok, Fallible.pure_eq_ok] at htoken
      obtain ⟨claims, -, hclaim⟩ := htoken
      split at hclaim
      next => cases hclaim
      next =>
        obtain ⟨rfl, hne⟩ := orNone_eq_some.mp hclaim
        exact hblank (by rwa [strip_strip])
  next =>
    simp only [Fallible.ite_error_eq_ok, Except.ok.injEq] at h
    obtain ⟨hne, rfl⟩ := h
    exact hblank (by rwa [strip_strip])

/-- A connect is for a caller that has proven who it is, and that has an organisation. -/
theorem connectBinding_eq_ok {principal : Principal} {provider : OAuthProvider} {email : String}
    (h : connectBinding rt app r = .ok (principal, provider, email)) :
    Authenticated rt.lowering app.authenticator r.toRequest principal ∧ principal.orgId ≠ none ∧
      OAuthProvider.ofValue? (rt.lowering.lower r.provider) = some provider ∧
      resolveBindingEmail rt app r = .ok email := by
  simp only [connectBinding, Fallible.bind_eq_ok, Fallible.mapError_eq_ok, Fallible.ite_error_eq_ok,
    Fallible.pure_eq_ok, Prod.mk.injEq] at h
  obtain ⟨caller, hcaller, named, hnamed, horg, resolved, hresolved, rfl, rfl, rfl⟩ := h
  refine ⟨authenticated_of_getRequestPrincipal hcaller ?_, horg, providerNamed_eq_ok hnamed, hresolved⟩
  rintro rfl
  exact horg rfl

end Atlas
