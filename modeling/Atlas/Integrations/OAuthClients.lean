import Atlas.Governance.CredentialResolver
import Atlas.Integrations.OAuthBinding
import Atlas.Interface.OAuthState

/-! The OAuth clients of Google and Slack: what they make of a token response, when a code is exchanged and
    when a token is refreshed. A refreshed credential is built from the response alone; of the stored one
    it is handed the refresh token and, by Google's client, the scopes. -/

namespace Atlas

open Text

def SLACK_OAUTH_USER_SCOPES : List String := ["chat:write", "users:read.email"]

/-! ### Token responses -/

/-- `_expires_at_from_token`, at a time of the clock. -/
def expiresAtFromToken (rt : OAuthRuntime) (now : DateTime) (token : Args) :
    Except PyError (Option ExpiresAt) :=
  match (Json.field? "expires_in" token).getD .null with
  | .null => .ok none
  | expiresIn => do
    let seconds ← rt.int expiresIn
    let wall ← DateTime.ofMicros (now.micros + seconds * 1000000)
    return some ⟨wall, some 0⟩

/-- A field of `StoredCredential` that is a text or `None`. -/
def optionalText : Json → Except PyError (Option String)
  | .null => .ok none
  | .str s => .ok (some s)
  | _ => .error ⟨"ValidationError", "StoredCredential: string_type"⟩

/-- `(token.get("scope") or "").split()`. -/
def scopesOfToken (token : Args) : Except PyError (List String) :=
  match (Json.field? "scope" token).getD .null with
  | .str scopes => .ok (split scopes)
  | v =>
    if v.truthy then .error ⟨"AttributeError", "'" ++ v.typeName ++ "' object has no attribute 'split'"⟩
    else .ok []

/-- `_stored_from_google_token`. -/
def storedFromGoogleToken (rt : OAuthRuntime) (now : DateTime) (token : Args) (fallbackScopes : List String) :
    Except PyError StoredCredential := do
  let listed ← scopesOfToken token
  let scopes := if listed = [] ∧ fallbackScopes ≠ [] then fallbackScopes else listed
  match Json.field? "access_token" token with
  | none => .error ⟨"KeyError", "'access_token'"⟩
  | some access =>
    let expiresAt ← expiresAtFromToken rt now token
    let refreshToken ← optionalText ((Json.field? "refresh_token" token).getD .null)
    return {
      provider := .google
      scopes := scopes
      accessToken := access.pyStr
      refreshToken := refreshToken
      expiresAt := expiresAt
      tokenType := (textField? "token_type" token).getD "Bearer" }

/-- `a.get(key) or b.get(key)`. -/
def eitherField (key : String) (a b : Args) : Json :=
  ((Json.field? key a).filter Json.truthy).getD ((Json.field? key b).getD .null)

/-- The ids of the team and of the user, where the response has them. -/
def slackMetadata (team authedUser : Args) : Dict String String :=
  (textEntry "team_id" "id" team ++ textEntry "user_id" "id" authedUser).foldl (fun d e => d.set e.1 e.2)
    Dict.empty

/-- `_expires_at_from_token(authed_user) or _expires_at_from_token(token)`. -/
def slackExpiresAt (rt : OAuthRuntime) (now : DateTime) (authedUser token : Args) :
    Except PyError (Option ExpiresAt) := do
  match ← expiresAtFromToken rt now authedUser with
  | some t => return some t
  | none => expiresAtFromToken rt now token

/-- `_stored_from_slack_token`. -/
def storedFromSlackToken (rt : OAuthRuntime) (now : DateTime) (token : Args) :
    Except PyError StoredCredential := do
  let authedUser ← mappingField "authed_user" token
  let access := eitherField "access_token" authedUser token
  if access.truthy = false then .error ⟨"RuntimeError", "Slack OAuth response missing user access token"⟩
  else
    let team ← mappingField "team" token
    let expiresAt ← slackExpiresAt rt now authedUser token
    let refreshToken ← optionalText (eitherField "refresh_token" authedUser token)
    return {
      provider := .slack
      scopes := SLACK_OAUTH_USER_SCOPES
      accessToken := access.pyStr
      refreshToken := refreshToken
      expiresAt := expiresAt
      metadata := slackMetadata team authedUser }

/-- `if not token.get("ok", True): raise RuntimeError(token.get("error", default))`. -/
def requireOk (default : String) (token : Args) : Except PyError Unit :=
  if ((Json.field? "ok" token).getD (.bool true)).truthy then .ok ()
  else .error ⟨"RuntimeError", ((Json.field? "error" token).getD (.str default)).pyStr⟩

/-! ### Clients -/

/-- A provider's token endpoint, for a code or a refresh token: a token response, or the error of the OAuth
    library. -/
abbrev TokenEndpoint := String → Except PyError Args

/-- `GoogleOAuthClient`, as the callback uses it. -/
def googleOAuthClient (rt : OAuthRuntime) (now : DateTime) (clientId : String) (endpoint : TokenEndpoint) :
    OAuthClient where
  clientId := clientId
  exchangeCode code := do
    let token ← endpoint code
    let credential ← storedFromGoogleToken rt now token []
    return ⟨credential, token⟩

/-- `GoogleOAuthClient.refresh`. -/
def googleRefresh (rt : OAuthRuntime) (now : DateTime) (endpoint : TokenEndpoint) (refreshToken : String)
    (priorScopes : List String) : Except PyError StoredCredential := do
  let answer ← endpoint refreshToken
  let token := match (Json.field? "refresh_token" answer).getD .null with
    | .null => Dict.setEntries "refresh_token" (.str refreshToken) answer
    | _ => answer
  storedFromGoogleToken rt now token priorScopes

/-- `SlackOAuthClient`, as the callback uses it. -/
def slackOAuthClient (rt : OAuthRuntime) (now : DateTime) (clientId : String) (endpoint : TokenEndpoint) :
    OAuthClient where
  clientId := clientId
  exchangeCode code := do
    let token ← endpoint code
    requireOk "Slack OAuth failed" token
    let credential ← storedFromSlackToken rt now token
    return ⟨credential, token⟩

/-- `SlackOAuthClient.refresh`. -/
def slackRefresh (rt : OAuthRuntime) (now : DateTime) (endpoint : TokenEndpoint) (refreshToken : String) :
    Except PyError StoredCredential := do
  let token ← endpoint refreshToken
  requireOk "Slack token refresh failed" token
  let credential ← storedFromSlackToken rt now token
  return if credential.refreshToken = none then { credential with refreshToken := some refreshToken }
    else credential

def oauthClient (rt : OAuthRuntime) (now : DateTime) (clientId : String) (endpoint : TokenEndpoint) :
    OAuthProvider → OAuthClient
  | .google => googleOAuthClient rt now clientId endpoint
  | .slack => slackOAuthClient rt now clientId endpoint

/-! ### What they build -/

section built
variable {rt : OAuthRuntime} {now : DateTime} {token : Args} {c : StoredCredential}

theorem optionalText_eq_ok {v : Json} {s : Option String} (h : optionalText v = .ok s) :
    s = none ∧ v = .null ∨ ∃ t, s = some t ∧ v = .str t := by
  cases v with
  | null => exact Or.inl ⟨(Except.ok.inj h).symm, rfl⟩
  | str t => exact Or.inr ⟨t, (Except.ok.inj h).symm, rfl⟩
  | _ => cases h

/-- A Google credential: the scopes of the response, or those it falls back on, and no metadata. -/
theorem storedFromGoogleToken_eq_ok {fallback : List String}
    (h : storedFromGoogleToken rt now token fallback = .ok c) : c.provider = .google ∧
      c.metadata = Dict.empty ∧
      optionalText ((Json.field? "refresh_token" token).getD .null) = .ok c.refreshToken ∧
      (Json.field? "scope" token = none → c.scopes = fallback) := by
  simp only [storedFromGoogleToken, Fallible.bind_eq_ok] at h
  obtain ⟨listed, hlisted, h⟩ := h
  split at h
  next => cases h
  next access _ =>
    simp only [Fallible.bind_eq_ok, Fallible.pure_eq_ok] at h
    obtain ⟨expires, -, refreshToken, hrefresh, rfl⟩ := h
    refine ⟨rfl, rfl, hrefresh, fun hscope => ?_⟩
    rw [scopesOfToken, hscope] at hlisted
    obtain rfl : [] = listed := Except.ok.inj hlisted
    cases fallback <;> rfl

/-- The account's email is not among what a Slack response tells. -/
theorem slackMetadata_email (team authedUser : Args) :
    (slackMetadata team authedUser).get? "provider_email" = none := by
  unfold slackMetadata textEntry
  cases textField? "id" team <;> cases textField? "id" authedUser <;> rfl

/-- A Slack credential: the scopes every user is asked for, and at most the ids of the team and the user. -/
theorem storedFromSlackToken_eq_ok (h : storedFromSlackToken rt now token = .ok c) : c.provider = .slack ∧
    c.scopes = SLACK_OAUTH_USER_SCOPES ∧ c.metadata.get? "provider_email" = none := by
  simp only [storedFromSlackToken, Fallible.bind_eq_ok, Fallible.ite_error_eq_ok, Fallible.pure_eq_ok] at h
  obtain ⟨authedUser, -, -, team, -, expires, -, refreshToken, -, rfl⟩ := h
  exact ⟨rfl, rfl, slackMetadata_email team authedUser⟩

/-- What a refresh builds, of either provider: a credential with a refresh token and without the account's
    email. Slack's has the scopes every user is asked for, Google's those it was handed where the response
    lists none. -/
structure Rebuilt (provider : OAuthProvider) (endpoint : TokenEndpoint) (refreshToken : String)
    (priorScopes : List String) (c : StoredCredential) : Prop where
  named : c.provider = provider
  renewable : c.refreshToken.isSome = true
  unbound : c.metadata.get? "provider_email" = none
  slackScopes : provider = .slack → c.scopes = SLACK_OAUTH_USER_SCOPES
  googleScopes : provider = .google → (∀ answer, endpoint refreshToken = .ok answer →
    Json.field? "scope" answer = none) → c.scopes = priorScopes

theorem rebuilt_of_googleRefresh {endpoint : TokenEndpoint} {refreshToken : String} {prior : List String}
    (h : googleRefresh rt now endpoint refreshToken prior = .ok c) :
    Rebuilt .google endpoint refreshToken prior c := by
  simp only [googleRefresh, Fallible.bind_eq_ok] at h
  obtain ⟨answer, hanswer, h⟩ := h
  obtain ⟨hprovider, hmetadata, hrefresh, hscopes⟩ := storedFromGoogleToken_eq_ok h
  refine ⟨hprovider, ?_, by rw [hmetadata]; rfl, (fun h => by cases h), fun _ homits => hscopes ?_⟩
  · rcases optionalText_eq_ok hrefresh with ⟨-, hnull⟩ | ⟨t, ht, -⟩
    · split at hnull
      next =>
        rw [Json.field?, Dict.lookup_setEntries, if_pos rfl] at hnull
        cases hnull
      next hgiven => exact absurd hnull hgiven
    · rw [ht]; rfl
  · have hnone := homits answer hanswer
    split
    · rw [Json.field?, Dict.lookup_setEntries, if_neg (by decide)]
      exact hnone
    · exact hnone

theorem rebuilt_of_slackRefresh {endpoint : TokenEndpoint} {refreshToken : String} {prior : List String}
    (h : slackRefresh rt now endpoint refreshToken = .ok c) :
    Rebuilt .slack endpoint refreshToken prior c := by
  simp only [slackRefresh, Fallible.bind_eq_ok, Fallible.pure_eq_ok] at h
  obtain ⟨token, -, -, -, credential, hcredential, rfl⟩ := h
  obtain ⟨hprovider, hscopes, hemail⟩ := storedFromSlackToken_eq_ok hcredential
  split
  next => exact ⟨hprovider, rfl, hemail, fun _ => hscopes, (fun h => by cases h)⟩
  next hsome =>
    exact ⟨hprovider, Option.isSome_iff_ne_none.mpr hsome, hemail, fun _ => hscopes, (fun h => by cases h)⟩

end built

end Atlas
