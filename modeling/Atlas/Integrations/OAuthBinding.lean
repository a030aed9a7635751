import Atlas.Governance.Credentials

/-! Binding an OAuth account to the user who started the connect: the email in the signed state against
    the email of the provider account, both normalised. Decoding an id token and asking Slack for a user
    are the providers'. -/

namespace Atlas

open Text

/-- `OAuthBindingError`. -/
def oauthBindingError (message : String) : PyError := ⟨"OAuthBindingError", message⟩

/-- What the providers answer: the claims of an id token that is valid for a client, and the body of
    `users.info` for a token and a user. -/
structure ProviderApis where
  decodeIdToken : String → String → Except PyError Args
  usersInfo : String → String → Except PyError Args

structure OAuthExchangeResult where
  credential : StoredCredential
  tokenResponse : Args

/-- An OAuth client of a provider. -/
structure OAuthClient where
  clientId : String
  exchangeCode : String → Except PyError OAuthExchangeResult

def normalizeEmail (low : Lowering) (email : String) : String := low.lower (strip email)

@[simp] theorem normalizeEmail_normalizeEmail (low : Lowering) (email : String) :
    normalizeEmail low (normalizeEmail low email) = normalizeEmail low email := by
  rw [normalizeEmail, normalizeEmail, low.strip_lower, strip_strip, low.lower_lower]

/-- The normalised email of a verified state. -/
def requireBindingEmail (low : Lowering) (payload : Args) : Except PyError String :=
  match Json.field? "binding_email" payload with
  | some (.str raw) =>
    if strip raw = "" then .error (oauthBindingError "state missing binding_email")
    else .ok (normalizeEmail low raw)
  | _ => .error (oauthBindingError "state missing binding_email")

def assertEmailsMatch (low : Lowering) (expected actual : String) : Except PyError Unit :=
  if normalizeEmail low expected ≠ normalizeEmail low actual then
    .error (oauthBindingError "provider account does not match connected Atlas user")
  else .ok ()

/-- `d.get(key) or {}`, of which a mapping is expected. -/
def mappingField (key : String) (d : Args) : Except PyError Args :=
  let v := (Json.field? key d).getD .null
  match v with
  | .obj fields => .ok fields
  | _ => if v.truthy then .error ⟨"AttributeError", "'" ++ v.typeName ++ "' object has no attribute 'get'"⟩
    else .ok []

/-- `d.get(key)` as a text, if it is truthy. -/
def textField? (key : String) (d : Args) : Option String :=
  ((Json.field? key d).filter Json.truthy).map Json.pyStr

/-- `{key: str(d["field"])}` if the field is truthy. -/
def textEntry (key field : String) (d : Args) : List (String × String) :=
  ((textField? field d).map fun v => (key, v)).toList

def GOOGLE_ISSUERS : List String := ["accounts.google.com", "https://accounts.google.com"]

/-- The account of an id token: its email, and what is kept of it. -/
def googleProviderEmail (low : Lowering) (apis : ProviderApis) (client : OAuthClient) (tokenResponse : Args) :
    Except PyError (String × List (String × String)) :=
  match textField? "id_token" tokenResponse with
  | none => .error (oauthBindingError "Google OAuth response missing id_token")
  | some idToken => do
    let claims ← apis.decodeIdToken idToken client.clientId
    let trusted ← ((Json.field? "iss" claims).getD .null).memberOf GOOGLE_ISSUERS
    if trusted = false then .error (oauthBindingError "invalid Google id_token")
    else
      match textField? "email" claims with
      | none => .error (oauthBindingError "Google id_token missing email claim")
      | some raw =>
        let email := normalizeEmail low raw
        return (email, ("provider_email", email) :: textEntry "google_sub" "sub" claims)

/-- The Slack account of a user. -/
def slackProviderEmail (low : Lowering) (apis : ProviderApis) (accessToken userId : String) :
    Except PyError (String × List (String × String)) := do
  let data ← apis.usersInfo accessToken userId
  if ((Json.field? "ok" data).getD .null).truthy = false then
    .error (oauthBindingError
      ((Json.field? "error" data).getD (.str "Slack users.info lookup failed")).pyStr)
  else
    let user ← mappingField "user" data
    let profile ← mappingField "profile" user
    match textField? "email" profile with
    | none => .error (oauthBindingError "Slack user profile missing email")
    | some raw =>
      let email := normalizeEmail low raw
      let team ← mappingField "team" data
      return (email, ("provider_email", email) ::
        (textEntry "user_id" "id" user ++ textEntry "team_id" "id" team))

/-- The Slack user of a credential: from its metadata, else from the token response. -/
def slackUserId (credential : StoredCredential) (tokenResponse : Args) : Except PyError String :=
  match (credential.metadata.get? "user_id").bind fun s => if s = "" then none else some s with
  | some userId => .ok userId
  | none => do
    let authedUser ← mappingField "authed_user" tokenResponse
    match textField? "id" authedUser with
    | some userId => .ok userId
    | none => .error (oauthBindingError "Slack OAuth response missing user id")

/-- The email of the provider account behind an exchange, and what is kept of the account. -/
def providerEmail (low : Lowering) (apis : ProviderApis) (provider : OAuthProvider) (client : OAuthClient)
    (exchange : OAuthExchangeResult) : Except PyError (String × List (String × String)) :=
  match provider with
  | .google => googleProviderEmail low apis client exchange.tokenResponse
  | .slack => do
    let userId ← slackUserId exchange.credential exchange.tokenResponse
    slackProviderEmail low apis exchange.credential.accessToken userId

/-- The credential with what is kept of the account. -/
def StoredCredential.withMetadata (credential : StoredCredential) (metadata : List (String × String)) :
    StoredCredential :=
  { credential with metadata := metadata.foldl (fun d e => d.set e.1 e.2) credential.metadata }

/-- Return the credential, with the account's data, if the account's email is the expected one. -/
def assertProviderEmailBinding (low : Lowering) (apis : ProviderApis) (provider : OAuthProvider)
    (client : OAuthClient) (bindingEmail : String) (exchange : OAuthExchangeResult) :
    Except PyError StoredCredential := do
  let (email, metadata) ← providerEmail low apis provider client exchange
  assertEmailsMatch low bindingEmail email
  return exchange.credential.withMetadata metadata

/-! ### What the binding guarantees -/

variable {low : Lowering} {apis : ProviderApis}

/-- A provider's answer is a normalised email, and what is kept of the account starts with it. -/
theorem providerEmail_eq_ok {provider : OAuthProvider} {client : OAuthClient}
    {exchange : OAuthExchangeResult} {email : String} {metadata : List (String × String)}
    (h : providerEmail low apis provider client exchange = .ok (email, metadata)) :
    normalizeEmail low email = email ∧ ∃ rest, metadata = ("provider_email", email) :: rest := by
  cases provider with
  | google =>
    simp only [providerEmail, googleProviderEmail] at h
    split at h
    next => cases h
    next =>
      simp only [Fallible.bind_eq_ok, Fallible.ite_error_eq_ok] at h
      obtain ⟨claims, -, trusted, -, -, h⟩ := h
      split at h
      next => cases h
      next raw _ =>
        cases h
        exact ⟨normalizeEmail_normalizeEmail low raw, _, rfl⟩
  | slack =>
    simp only [providerEmail, slackProviderEmail, Fallible.bind_eq_ok, Fallible.ite_error_eq_ok] at h
    obtain ⟨userId, -, data, -, -, user, -, profile, -, h⟩ := h
    split at h
    next => cases h
    next raw _ =>
      obtain ⟨team, -, h⟩ := Fallible.bind_eq_ok.mp h
      cases h
      exact ⟨normalizeEmail_normalizeEmail low raw, _, rfl⟩

theorem requireBindingEmail_eq_ok {payload : Args} {email : String}
    (h : requireBindingEmail low payload = .ok email) :
    ∃ raw, Json.field? "binding_email" payload = some (.str raw) ∧ email = normalizeEmail low raw := by
  unfold requireBindingEmail at h
  split at h
  next raw hraw =>
    obtain ⟨-, h⟩ := Fallible.ite_error_eq_ok.mp h
    cases h
    exact ⟨raw, hraw, rfl⟩
  next => cases h

/-- A credential passes only with the email that the state is bound to. -/
theorem assertProviderEmailBinding_eq_ok {provider : OAuthProvider} {client : OAuthClient}
    {raw : String} {exchange : OAuthExchangeResult} {credential : StoredCredential}
    (h : assertProviderEmailBinding low apis provider client (normalizeEmail low raw) exchange =
      .ok credential) :
    ∃ metadata, providerEmail low apis provider client exchange = .ok (normalizeEmail low raw, metadata) ∧
      credential = exchange.credential.withMetadata metadata := by
  simp only [assertProviderEmailBinding, assertEmailsMatch, Fallible.bind_eq_ok, Fallible.ite_error_eq_ok,
    Fallible.pure_eq_ok, not_not] at h
  obtain ⟨⟨email, metadata⟩, hemail, -, ⟨hmatch, -⟩, rfl⟩ := h
  rw [normalizeEmail_normalizeEmail, (providerEmail_eq_ok hemail).1] at hmatch
  exact ⟨metadata, by rw [hmatch, hemail], rfl⟩

end Atlas
