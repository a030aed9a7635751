import Atlas.Integrations.OAuthBinding
import Atlas.Interface.OAuthState

/-! The OAuth callbacks. Both verify the state, find the principal it is for and complete the flow, which
    verifies the state once more, exchanges the code, binds the account's email and stores the credential.
    The vault is written by the last step only, so whatever it stores has passed every check before
    (`oauthCallback_stores_proven`). -/

namespace Atlas

open Text

variable {V : Type}

/-- How a callback fails: an HTTP error, or an exception nobody catches. -/
inductive CallbackError where
  | http (e : HTTPException)
  | uncaught (e : PyError)

structure OAuthApp (V : Type) where
  settings : OAuthSettings
  authenticator : Option OidcAuthenticator
  vault : Option (CredentialVault V)
  googleClient : Option OAuthClient
  slackClient : Option OAuthClient
  apis : ProviderApis

/-- A callback: the request, the provider of its URL, and the two parameters. -/
structure CallbackRequest extends Request where
  provider : String
  code : String
  state : PyText

/-- A named exception is answered as a bad request. -/
def badRequestOn (types : List String) (e : PyError) : CallbackError :=
  if types.contains e.type then .http ⟨400, e.message⟩ else .uncaught e

/-- `_vault`. -/
def OAuthApp.requireVault (app : OAuthApp V) : Except CallbackError (CredentialVault V) :=
  match app.vault with
  | some vault => .ok vault
  | none => .error (.http ⟨503, "Credential vault not configured."⟩)

/-- `_provider`. -/
def providerNamed (low : Lowering) (name : String) : Except CallbackError OAuthProvider :=
  match OAuthProvider.ofValue? (low.lower name) with
  | some provider => .ok provider
  | none => .error (.http ⟨404, "Unknown provider: " ++ name⟩)

def OAuthApp.client (app : OAuthApp V) : OAuthProvider → Except CallbackError OAuthClient
  | .google =>
    match app.googleClient with
    | some client => .ok client
    | none => .error (.http ⟨503, "Google OAuth not configured."⟩)
  | .slack =>
    match app.slackClient with
    | some client => .ok client
    | none => .error (.http ⟨503, "Slack OAuth not configured."⟩)

/-- `_CALLBACK_AUTH_HINT`. -/
def callbackAuthHint (provider : String) : String :=
  "Complete OAuth via authenticated POST /oauth/" ++ provider ++
    "/callback or restart connect to receive a pending cookie."

/-- `cookie and verify_oauth_pending_cookie(...)`. -/
def hasPendingCookie (rt : OAuthRuntime) (settings : OAuthSettings) (request : Request) (payload : Args) :
    Except PyError Bool :=
  match request.pendingCookie.bind orNone with
  | some cookie => verifyOauthPendingCookie rt settings cookie payload
  | none => .ok false

/-- The principal of a GET callback: bearer token, pending cookie, header shim, in this order. -/
def resolveCallbackPrincipal (rt : OAuthRuntime) (app : OAuthApp V) (r : CallbackRequest) (payload : Args) :
    Except CallbackError Principal :=
  match bearerToken rt.lowering r.toRequest, app.authenticator with
  | some token, some auth => do
    let caller ← (auth.principalFromToken token).mapError fun e => .http (tokenError e)
    (principalFromState payload caller).mapError .uncaught
  | _, authenticator => do
    let pending ← (hasPendingCookie rt app.settings r.toRequest payload).mapError .uncaught
    if pending then (principalFromPayload payload).mapError .uncaught
    else if authenticator.isSome then .error (.http ⟨401, callbackAuthHint r.provider⟩)
    else if principalFromHeaders r.toRequest = Principal.anonymous then
      .error (.http ⟨401, callbackAuthHint r.provider⟩)
    else (principalFromState payload (principalFromHeaders r.toRequest)).mapError .uncaught

/-- The second verification of the state, against the provider and the principal; its binding email. -/
def verifiedBindingEmail (rt : OAuthRuntime) (settings : OAuthSettings) (now : ℤ) (provider : OAuthProvider)
    (state : PyText) (bound : Principal) : Except PyError String := do
  let payload ← consumeOauthState rt settings now state
  if ¬fieldIs "provider" (some provider.value) payload then .error (oauthStateError "provider mismatch")
  else if ¬(fieldIs "user_id" (some bound.userId) payload ∧ fieldIs "org_id" bound.orgId payload) then
    .error (oauthStateError "state principal mismatch")
  else requireBindingEmail rt.lowering payload

/-- What is stored, once everything has been checked. -/
def callbackCredential (rt : OAuthRuntime) (app : OAuthApp V) (now : ℤ) (provider : OAuthProvider)
    (code : String) (state : PyText) (bound : Principal) : Except CallbackError StoredCredential := do
  let bindingEmail ← (verifiedBindingEmail rt app.settings now provider state bound).mapError
    (badRequestOn ["OAuthStateError", "OAuthBindingError"])
  let client ← app.client provider
  let exchange ← (client.exchangeCode code).mapError .uncaught
  (assertProviderEmailBinding rt.lowering app.apis provider client bindingEmail exchange).mapError
    (badRequestOn ["OAuthBindingError"])

/-- `_raise_vault_error`. -/
def vaultError (e : PyError) : CallbackError :=
  if e.type ≠ "CredentialAccessError" then .uncaught e
  else if occursIn "temporarily unavailable" e.message then .http ⟨503, e.message⟩
  else .http ⟨403, e.message⟩

/-- Whom a callback is for, and where it stores. -/
structure Binding (V : Type) where
  vault : CredentialVault V
  provider : OAuthProvider
  bound : Principal

/-- A binding with the credential that is stored for it. -/
def checkedCallback (rt : OAuthRuntime) (app : OAuthApp V) (now : ℤ) (r : CallbackRequest)
    (binding : Except CallbackError (Binding V)) : Except CallbackError (Binding V × StoredCredential) := do
  let b ← binding
  let credential ← callbackCredential rt app now b.provider r.code r.state b.bound
  return (b, credential)

/-- The URL the client is sent to, and the vault's store. -/
def completeOauthCallback (rt : OAuthRuntime) (app : OAuthApp V) (now : ℤ) (r : CallbackRequest)
    (binding : Except CallbackError (Binding V)) (v : V) : Except CallbackError String × V :=
  match checkedCallback rt app now r binding with
  | .error e => (.error e, v)
  | .ok (b, credential) =>
    match b.vault.put b.bound b.provider credential v with
    | (.ok (), v) =>
      (.ok (((app.settings.oauthSuccessUrl.getD "") |> orNone).getD "/oauth/connections"), v)
    | (.error e, v) => (.error (vaultError e), v)

/-- The binding of a GET callback. -/
def getBinding (rt : OAuthRuntime) (app : OAuthApp V) (now : ℤ) (r : CallbackRequest) :
    Except CallbackError (Binding V) := do
  let vault ← app.requireVault
  let provider ← providerNamed rt.lowering r.provider
  let payload ← (consumeOauthState rt app.settings now r.state).mapError (badRequestOn ["OAuthStateError"])
  let bound ← resolveCallbackPrincipal rt app r payload
  return ⟨vault, provider, bound⟩

/-- The binding of a POST callback: the caller of the request. -/
def postBinding (rt : OAuthRuntime) (app : OAuthApp V) (now : ℤ) (r : CallbackRequest) :
    Except CallbackError (Binding V) := do
  let principal ← (getRequestPrincipal rt.lowering app.authenticator r.toRequest).mapError .http
  let vault ← app.requireVault
  let provider ← providerNamed rt.lowering r.provider
  let bound ← (do
    let payload ← consumeOauthState rt app.settings now r.state
    principalFromState payload principal : Except PyError Principal).mapError
      (badRequestOn ["OAuthStateError"])
  return ⟨vault, provider, bound⟩

/-- GET /oauth/{provider}/callback; the clock is read twice. -/
def oauthCallbackGet (rt : OAuthRuntime) (app : OAuthApp V) (now now' : ℤ) (r : CallbackRequest) (v : V) :
    Except CallbackError String × V :=
  completeOauthCallback rt app now' r (getBinding rt app now r) v

/-- POST /oauth/{provider}/callback. -/
def oauthCallbackPost (rt : OAuthRuntime) (app : OAuthApp V) (now now' : ℤ) (r : CallbackRequest) (v : V) :
    Except CallbackError String × V :=
  completeOauthCallback rt app now' r (postBinding rt app now r) v

/-! ### What stands behind a stored credential -/

/-- The pending cookie of the request is the HMAC of the payload's nonce. -/
def PendingCookie (rt : OAuthRuntime) (settings : OAuthSettings) (request : Request) (payload : Args) :
    Prop :=
  ∃ nonce key, Json.field? "nonce" payload = some (.str nonce) ∧ oauthStateKey settings = .ok key ∧
    request.pendingCookie = some (rt.hmac key nonce)

/-- A callback proves whom a credential is for: `cookie` says whether a pending cookie may do so. -/
structure ProvenBinding (rt : OAuthRuntime) (app : OAuthApp V) (now now' : ℤ) (cookie : Prop)
    (r : CallbackRequest) (provider : OAuthProvider) (bound : Principal) (credential : StoredCredential)
    (payload : Args) : Prop where
  state : Carries rt app.settings r.state payload
  unexpired : Unexpired rt payload now ∧ Unexpired rt payload now'
  named : OAuthProvider.ofValue? (rt.lowering.lower r.provider) = some provider ∧
    Json.field? "provider" payload = some (.str provider.value)
  principal : NamesPrincipal payload bound
  proof : Authenticated rt.lowering app.authenticator r.toRequest bound ∨
    cookie ∧ PendingCookie rt app.settings r.toRequest payload
  email : ∃ raw client exchange metadata, Json.field? "binding_email" payload = some (.str raw) ∧
    app.client provider = .ok client ∧ client.exchangeCode r.code = .ok exchange ∧
    providerEmail rt.lowering app.apis provider client exchange =
      .ok (normalizeEmail rt.lowering raw, metadata) ∧
    credential = exchange.credential.withMetadata metadata

/-- A callback leaves the vault's store as it is, or stores one credential with a proven binding. -/
def StoresProven (rt : OAuthRuntime) (app : OAuthApp V) (now now' : ℤ) (cookie : Prop) (r : CallbackRequest)
    (v after : V) : Prop :=
  after = v ∨ ∃ vault provider bound credential payload, app.vault = some vault ∧
    after = (vault.put bound provider credential v).2 ∧
    ProvenBinding rt app now now' cookie r provider bound credential payload

variable {rt : OAuthRuntime} {app : OAuthApp V} {now now' : ℤ} {r : CallbackRequest}

theorem hasPendingCookie_eq_true {settings : OAuthSettings} {request : Request} {payload : Args}
    (h : hasPendingCookie rt settings request payload = .ok true) :
    PendingCookie rt settings request payload := by
  unfold hasPendingCookie at h
  split at h
  next cookie hcookie =>
    obtain ⟨nonce, key, hnonce, hkey, rfl⟩ := verifyOauthPendingCookie_eq_true h
    obtain ⟨c, hc, hsome⟩ := Option.bind_eq_some_iff.mp hcookie
    obtain ⟨rfl, -⟩ := orNone_eq_some.mp hsome
    exact ⟨nonce, key, hnonce, hkey, hc⟩
  next => cases h

/-- The principal of a GET callback has proven itself, and is the one of the payload. -/
theorem resolveCallbackPrincipal_eq_ok {payload : Args} {bound : Principal}
    (h : resolveCallbackPrincipal rt app r payload = .ok bound) :
    NamesPrincipal payload bound ∧
      (Authenticated rt.lowering app.authenticator r.toRequest bound ∨
        PendingCookie rt app.settings r.toRequest payload) := by
  -- a caller that is bound to the state by `principal_from_state`
  have hcaller : ∀ caller, Authenticated rt.lowering app.authenticator r.toRequest caller →
      principalFromState payload caller = .ok bound →
      NamesPrincipal payload bound ∧ Authenticated rt.lowering app.authenticator r.toRequest bound := by
    intro caller hauth hstate
    obtain ⟨rfl, -, hnames⟩ := principalFromState_eq_ok hstate
    exact ⟨hnames (userId_of_authenticated hauth), hauth⟩
  unfold resolveCallbackPrincipal at h
  split at h
  next token auth htoken hauth =>
    simp only [Fallible.bind_eq_ok, Fallible.mapError_eq_ok] at h
    obtain ⟨caller, hcall, hstate⟩ := h
    exact (hcaller caller (.token hauth htoken hcall) hstate).imp_right Or.inl
  next =>
    simp only [Fallible.bind_eq_ok, Fallible.mapError_eq_ok] at h
    obtain ⟨pending, hpending, h⟩ := h
    cases pending with
    | true =>
      rw [if_pos rfl, Fallible.mapError_eq_ok] at h
      exact ⟨principalFromPayload_eq_ok h, Or.inr (hasPendingCookie_eq_true hpending)⟩
    | false =>
      simp only [Bool.false_eq_true, if_false, Fallible.ite_error_eq_ok, Fallible.mapError_eq_ok] at h
      obtain ⟨hnone, hanon, hstate⟩ := h
      have hoff : app.authenticator = none := by simpa using hnone
      exact (hcaller _ (.headers hoff hanon) hstate).imp_right Or.inl

/-- What is settled about a binding before the state is verified for the second time. -/
def Resolved (rt : OAuthRuntime) (app : OAuthApp V) (now : ℤ) (cookie : Prop) (r : CallbackRequest)
    (b : Binding V) (payload : Args) : Prop :=
  app.vault = some b.vault ∧ OAuthProvider.ofValue? (rt.lowering.lower r.provider) = some b.provider ∧
    consumeOauthState rt app.settings now r.state = .ok payload ∧ NamesPrincipal payload b.bound ∧
    (Authenticated rt.lowering app.authenticator r.toRequest b.bound ∨
      cookie ∧ PendingCookie rt app.settings r.toRequest payload)

theorem requireVault_eq_ok {vault : CredentialVault V} (h : app.requireVault = .ok vault) :
    app.vault = some vault := by
  unfold OAuthApp.requireVault at h
  split at h <;> simp_all

theorem providerNamed_eq_ok {low : Lowering} {name : String} {provider : OAuthProvider}
    (h : providerNamed low name = .ok provider) :
    OAuthProvider.ofValue? (low.lower name) = some provider := by
  unfold providerNamed at h
  split at h <;> simp_all

theorem getBinding_eq_ok {b : Binding V} (h : getBinding rt app now r = .ok b) :
    ∃ payload, Resolved rt app now True r b payload := by
  simp only [getBinding, Fallible.bind_eq_ok, Fallible.pure_eq_ok, Fallible.mapError_eq_ok] at h
  obtain ⟨vault, hvault, provider, hprovider, payload, hpayload, bound, hbound, rfl⟩ := h
  obtain ⟨hnames, hproof⟩ := resolveCallbackPrincipal_eq_ok hbound
  exact ⟨payload, requireVault_eq_ok hvault, providerNamed_eq_ok hprovider, hpayload, hnames,
    hproof.imp_right fun hcookie => ⟨trivial, hcookie⟩⟩

theorem postBinding_eq_ok {b : Binding V} (h : postBinding rt app now r = .ok b) :
    ∃ payload, Resolved rt app now False r b payload := by
  simp only [postBinding, Fallible.bind_eq_ok, Fallible.pure_eq_ok, Fallible.mapError_eq_ok] at h
  obtain ⟨caller, hcaller, vault, hvault, provider, hprovider, bound, ⟨payload, hpayload, hbound⟩, rfl⟩ := h
  obtain ⟨rfl, hanon, hnames⟩ := principalFromState_eq_ok hbound
  have hauth := authenticated_of_getRequestPrincipal hcaller hanon
  exact ⟨payload, requireVault_eq_ok hvault, providerNamed_eq_ok hprovider, hpayload,
    hnames (userId_of_authenticated hauth), Or.inl hauth⟩

/-- The second verification: the provider is the one of the state, and the email is bound. -/
theorem verifiedBindingEmail_eq_ok {settings : OAuthSettings} {provider : OAuthProvider} {state : PyText}
    {email : String} {bound : Principal}
    (h : verifiedBindingEmail rt settings now' provider state bound = .ok email) :
    ∃ payload raw, consumeOauthState rt settings now' state = .ok payload ∧
      Json.field? "provider" payload = some (.str provider.value) ∧
      Json.field? "binding_email" payload = some (.str raw) ∧ email = normalizeEmail rt.lowering raw := by
  simp only [verifiedBindingEmail, Fallible.bind_eq_ok, Fallible.ite_error_eq_ok, not_not] at h
  obtain ⟨payload, hpayload, hprovider, -, hemail⟩ := h
  obtain ⟨raw, hraw, rfl⟩ := requireBindingEmail_eq_ok hemail
  exact ⟨payload, raw, hpayload, fieldIs_eq_true hprovider, hraw, rfl⟩

/-- Completing the flow stores nothing, or stores for the resolved binding after all further checks. -/
theorem storesProven_of_complete {cookie : Prop} {binding : Except CallbackError (Binding V)} {v : V}
    (hbinding : ∀ b, binding = .ok b → ∃ payload, Resolved rt app now cookie r b payload) :
    StoresProven rt app now now' cookie r v (completeOauthCallback rt app now' r binding v).2 := by
  unfold completeOauthCallback
  split
  next => exact Or.inl rfl
  next b credential hchecked =>
    simp only [checkedCallback, Fallible.bind_eq_ok, Fallible.pure_eq_ok, Prod.mk.injEq] at hchecked
    obtain ⟨b', hb, credential', hcredential, rfl, rfl⟩ := hchecked
    obtain ⟨payload, hvault, hnamed, hconsume, hnames, hproof⟩ := hbinding b' hb
    simp only [callbackCredential, Fallible.bind_eq_ok, Fallible.mapError_eq_ok] at hcredential
    obtain ⟨email, hemail, client, hclient, exchange, hexchange, hbound⟩ := hcredential
    obtain ⟨payload', raw, hconsume', hprovider, hraw, rfl⟩ := verifiedBindingEmail_eq_ok hemail
    obtain ⟨rfl, hexp⟩ := payload_of_consume hconsume hconsume'
    obtain ⟨metadata, hprovided, hcred⟩ := assertProviderEmailBinding_eq_ok hbound
    refine Or.inr ⟨b'.vault, b'.provider, b'.bound, credential', payload', hvault, ?_,
      carries_of_consume hconsume, hexp, ⟨hnamed, hprovider⟩, hnames, hproof,
      raw, client, exchange, metadata, hraw, hclient, hexchange, hprovided, hcred⟩
    split <;> simp_all

/-- Neither callback writes to the vault, except for a credential whose binding the request has proven. -/
theorem oauthCallback_stores_proven (rt : OAuthRuntime) (app : OAuthApp V) (now now' : ℤ)
    (r : CallbackRequest) (v : V) :
    StoresProven rt app now now' True r v (oauthCallbackGet rt app now now' r v).2 ∧
    StoresProven rt app now now' False r v (oauthCallbackPost rt app now now' r v).2 :=
  ⟨storesProven_of_complete fun _ hb => getBinding_eq_ok hb,
    storesProven_of_complete fun _ hb => postBinding_eq_ok hb⟩

/-! ### A connect that comes back -/

/-- Texts that are lower-case already, a transparent HMAC, and one payload. -/
def aliceRuntime : OAuthRuntime where
  lowering := ⟨id, fun _ => rfl, fun _ => rfl⟩
  hmac := fun key text => key ++ ":" ++ text
  loads := fun _ => .ok (.obj [("binding_email", .str "alice@example.com"), ("exp", .int 600),
    ("nonce", .str "n1"), ("org_id", .str "acme"), ("provider", .str "google"), ("user_id", .str "alice")])
  intOfText := fun s => .error ⟨"ValueError", s⟩

/-- A vault that lists whom it was written for. -/
def listingVault : CredentialVault (List (Principal × OAuthProvider)) where
  put := fun principal provider _ v => (.ok (), v ++ [(principal, provider)])
  get := fun _ _ v => (.ok none, v)
  delete := fun _ _ v => (.ok (), v)
  listConnected := fun _ v => (.ok [], v)

def aliceApp : OAuthApp (List (Principal × OAuthProvider)) where
  settings := { oauthStateSecret := some "k" }
  authenticator := none
  vault := some listingVault
  googleClient := some {
    clientId := "atlas"
    exchangeCode := fun _ => .ok
      ⟨{ provider := .google, accessToken := "t" }, [("id_token", .str "jwt")]⟩ }
  slackClient := none
  apis := {
    decodeIdToken := fun _ _ => .ok [("iss", .str "accounts.google.com"), ("email", .str "alice@example.com")]
    usersInfo := fun _ _ => .ok [] }

-- the browser that started the connect stores its credential, another one without the cookie does not
example : (oauthCallbackGet aliceRuntime aliceApp 0 1
      { provider := "google", code := "c", state := "p.k:p", pendingCookie := some "k:n1" } []).2 =
    [({ userId := "alice", orgId := some "acme" }, .google)] ∧
    (oauthCallbackGet aliceRuntime aliceApp 0 1
      { provider := "google", code := "c", state := "p.k:p" } []).2 = [] := by decide +kernel

end Atlas
