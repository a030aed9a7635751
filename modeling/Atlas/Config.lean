import Atlas.ToolEgress

/-! The configuration as it is read from the environment. A variable that is left blank in the environment
    is the empty text, not an absent one. Settings exist only once all their validators have passed, so what
    those check is part of the type: a group of variables that makes sense only together is given in whole
    or not at all (`group_complete`), and a proxy that is given can be used (`proxy_usable`). -/

namespace Atlas

open Text

/-! ### What is read -/

/-- The variables that are read below; a secret is its value. -/
structure SettingsData where
  anthropicApiKey : Option String := none
  sqlitePath : Option String := none
  databaseUrl : Option String := none
  voyageApiKey : Option String := none
  embeddingModel : String := "voyage-3"
  embeddingDim : ℤ := 1024
  openrouterApiKey : Option String := none
  kgExtractionEnabled : Bool := false
  extractionModel : String := "openai/gpt-4o-mini"
  extractionMaxEntities : ℤ := 64
  extractionMaxRelations : ℤ := 128
  responderLlmEnabled : Bool := false
  responderModel : String := "anthropic/claude-opus-4.8"
  adapterEngineEnabled : Bool := false
  adapterEgressAllowlist : String := "slack.com"
  adapterSchemaDir : String := ""
  adapterEgressProxyUrl : String := ""
  adapterEgressProxyUsername : String := ""
  adapterEgressProxyPassword : Option String := none
  oidcIssuer : Option String := none
  oidcAudience : Option String := none
  oidcJwksUri : Option String := none
  oidcAllowInsecureHttp : Bool := false
  rateLimitEnabled : Bool := true
  rateLimitRequests : ℤ := 60
  rateLimitWindowSeconds : ℤ := 60
  upstashRedisRestUrl : Option String := none
  upstashRedisRestToken : Option String := none
  resendApiKey : Option String := none
  emailFrom : Option String := none
  slackBotToken : Option String := none
  vaultAddr : Option String := none
  vaultToken : Option String := none
  vaultRoleId : Option String := none
  vaultSecretId : Option String := none
  googleOauthClientId : Option String := none
  googleOauthClientSecret : Option String := none
  googleOauthRedirectUri : Option String := none
  slackOauthClientId : Option String := none
  slackOauthClientSecret : Option String := none
  slackOauthRedirectUri : Option String := none
  oauthStateSecret : Option String := none
  oauthAllowInsecureState : Bool := false

/-- What validation asks of the libraries: `httpx.URL`, scheme and host by `urlparse`, and the address a
    text is read as, with its ranges. -/
structure ConfigRuntime where
  parseUrl : String → Except PyError Url
  urlparse : String → Except PyError (String × Option String)
  ipAddress : String → Option IpAddress
  isLoopback : IpAddress → Bool
  isLinkLocal : IpAddress → Bool
  isMulticast : IpAddress → Bool
  isUnspecified : IpAddress → Bool

/-- `_nonempty_str` and `_nonempty_secret`: there is more than white space. -/
def nonempty (value : Option String) : Bool := value.any (strip · != "")

/-- The truth value of an optional text or secret. -/
def truthyText (value : Option String) : Bool := value.any (· != "")

theorem exists_of_nonempty {value : Option String} (h : nonempty value = true) : ∃ s, value = some s := by
  cases value with
  | none => cases h
  | some s => exact ⟨s, rfl⟩

namespace SettingsData
variable (s : SettingsData)

def emailConfigured : Bool := nonempty s.resendApiKey && nonempty s.emailFrom

def slackConfigured : Bool := nonempty s.slackBotToken

def embeddingsConfigured : Bool := nonempty s.voyageApiKey

def openrouterConfigured : Bool := nonempty s.openrouterApiKey

def extractionEnabled : Bool := s.kgExtractionEnabled && s.openrouterConfigured

def responderLlmActive : Bool := s.responderLlmEnabled && s.openrouterConfigured

def rateLimitConfigured : Bool :=
  s.rateLimitEnabled && nonempty s.upstashRedisRestUrl && nonempty s.upstashRedisRestToken

def oidcEnabled : Bool := truthyText s.oidcIssuer && truthyText s.oidcAudience && truthyText s.oidcJwksUri

def hasVaultRole : Bool := nonempty s.vaultRoleId && nonempty s.vaultSecretId

/-- `vault_configured` and `credential_vault_enabled`. -/
def vaultConfigured : Bool := nonempty s.vaultAddr && (nonempty s.vaultToken || s.hasVaultRole)

def oauthGoogleConfigured : Bool :=
  nonempty s.googleOauthClientId && nonempty s.googleOauthClientSecret && nonempty s.googleOauthRedirectUri

def oauthSlackConfigured : Bool :=
  nonempty s.slackOauthClientId && nonempty s.slackOauthClientSecret && nonempty s.slackOauthRedirectUri

def oauthRoutesEnabled : Bool := s.oauthGoogleConfigured || s.oauthSlackConfigured

def hasAnthropicKey : Bool := truthyText s.anthropicApiKey

def adapterEgressProxyEnabled : Bool := strip s.adapterEgressProxyUrl != ""

/-- The credentials of the proxy, when both are configured. -/
def adapterEgressProxyAuth : Option (String × String) :=
  match s.adapterEgressProxyPassword with
  | none => none
  | some secret => if strip secret = "" then none else some (strip s.adapterEgressProxyUsername, secret)

/-- The hosts that schema-driven tools may call: lower-cased, blanks dropped. -/
def adapterEgressAllowlistHosts (lower : String → String) : List String :=
  ((splitOn (· == ',') s.adapterEgressAllowlist).filter (strip · != "")).map fun host => lower (strip host)

end SettingsData

/-! ### Validators -/

def valueError (message : String) : PyError := ⟨"ValueError", message⟩

/-- Variables that make sense only together: some set and some not is an error. -/
def allOrNone (label advice : String) (fields : List (String × Bool)) : Except PyError Unit :=
  let setNames := (fields.filter (·.2)).map (·.1)
  let unsetNames := (fields.filter (!·.2)).map (·.1)
  if setNames ≠ [] ∧ unsetNames ≠ [] then
    .error (valueError ("Partial " ++ label ++ " configuration: " ++ ", ".intercalate setNames ++ " set but " ++
      ", ".intercalate unsetNames ++ " missing. " ++ advice))
  else .ok ()

def setAllThree : String := "Set all three or leave all blank."

def setBoth : String := "Set both or leave both blank."

/-- The checks that a limit or a dimension is positive. -/
def requirePositive (name : String) (n : ℤ) : Except PyError Unit :=
  if n ≤ 0 then .error (valueError (name ++ " must be a positive integer.")) else .ok ()

def localHttpHosts : List String := ["127.0.0.1", "localhost"]

/-- `_is_secure_oidc_url`. -/
def isSecureOidcUrl (rt : ConfigRuntime) (url : String) : Except PyError Bool := do
  let (scheme, hostname) ← rt.urlparse (strip url)
  return scheme == "https" || scheme == "http" && hostname.any (localHttpHosts.contains ·)

/-- `assert_proxy_host_not_blocked`: a host that is no address passes. -/
def assertProxyHostNotBlocked (rt : ConfigRuntime) (host : String) : Except PyError Unit :=
  match rt.ipAddress host with
  | none => .ok ()
  | some ip =>
    let ip := ip.unmapped
    if rt.isLoopback ip || rt.isLinkLocal ip || rt.isMulticast ip || rt.isUnspecified ip then
      .error (valueError ("ATLAS_ADAPTER_EGRESS_PROXY_URL host " ++ Text.reprStr host ++
        " resolves to a blocked address range."))
    else .ok ()

/-- The one embedding model, with its dimension. -/
def EMBEDDING_MODEL_DIMS : List (String × ℤ) := [("voyage-3", 1024)]

def SUPPORTED_EMBEDDING_MODELS : List String := ["voyage-3"]

namespace SettingsData
variable (rt : ConfigRuntime) (s : SettingsData)

def validateVaultConfig : Except PyError Unit :=
  if (nonempty s.vaultRoleId || nonempty s.vaultSecretId) && !s.hasVaultRole then
    .error (valueError ("Partial Vault AppRole configuration: set both VAULT_ROLE_ID and " ++
      "VAULT_SECRET_ID or leave both blank."))
  else if nonempty s.vaultAddr && !nonempty s.vaultToken && !s.hasVaultRole then
    .error (valueError
      "VAULT_ADDR is set but neither VAULT_TOKEN nor AppRole credentials are configured.")
  else .ok ()

def validateAdapterEgressProxy : Except PyError Unit :=
  let hasUser := strip s.adapterEgressProxyUsername != ""
  let hasPass := nonempty s.adapterEgressProxyPassword
  let proxyUrl := strip s.adapterEgressProxyUrl
  if hasUser != hasPass then
    .error (valueError ("Partial proxy auth: set ATLAS_ADAPTER_EGRESS_PROXY_URL, " ++
      "ATLAS_ADAPTER_EGRESS_PROXY_USERNAME, and ATLAS_ADAPTER_EGRESS_PROXY_PASSWORD " ++
      "together or leave all blank."))
  else if (hasUser || hasPass) && proxyUrl == "" then
    .error (valueError ("Proxy egress credentials require ATLAS_ADAPTER_EGRESS_PROXY_URL; set URL, " ++
      "username, and password together or leave all blank."))
  else if proxyUrl = "" then .ok ()
  else do
    let parsed ← rt.parseUrl proxyUrl
    if parsed.scheme ∉ ["http", "https"] then
      .error (valueError ("ATLAS_ADAPTER_EGRESS_PROXY_URL must use http or https scheme, got " ++
        Text.reprStr parsed.scheme ++ "."))
    else if parsed.host = "" then .error (valueError "ATLAS_ADAPTER_EGRESS_PROXY_URL must include a host.")
    else if parsed.userinfo ≠ "" then
      .error (valueError ("ATLAS_ADAPTER_EGRESS_PROXY_URL must not contain userinfo; use " ++
        "ATLAS_ADAPTER_EGRESS_PROXY_USERNAME and ATLAS_ADAPTER_EGRESS_PROXY_PASSWORD."))
    else if hasUser ∧ hasPass ∧ parsed.scheme ≠ "https" then
      .error (valueError ("Authenticated proxy egress requires ATLAS_ADAPTER_EGRESS_PROXY_URL with " ++
        "https:// scheme (credentials must not be sent over plaintext proxy transport)."))
    else assertProxyHostNotBlocked rt parsed.host

def validateGoogleOauthConfig : Except PyError Unit :=
  allOrNone "Google OAuth" setAllThree [("GOOGLE_OAUTH_CLIENT_ID", nonempty s.googleOauthClientId),
    ("GOOGLE_OAUTH_CLIENT_SECRET", nonempty s.googleOauthClientSecret),
    ("GOOGLE_OAUTH_REDIRECT_URI", nonempty s.googleOauthRedirectUri)]

def validateSlackOauthConfig : Except PyError Unit :=
  allOrNone "Slack OAuth" setAllThree [("SLACK_OAUTH_CLIENT_ID", nonempty s.slackOauthClientId),
    ("SLACK_OAUTH_CLIENT_SECRET", nonempty s.slackOauthClientSecret),
    ("SLACK_OAUTH_REDIRECT_URI", nonempty s.slackOauthRedirectUri)]

/-- One URL of an enabled issuer. -/
def requireSecureOidc (name : String) : Option String → Except PyError Unit
  | none => .ok ()
  | some url => do
    if !(← isSecureOidcUrl rt url) then
      throw (valueError (name ++ " must use https:// (or http://127.0.0.1 / http://localhost). " ++
        "Set ATLAS_OIDC_ALLOW_INSECURE_HTTP=true only for dev/integration."))

def validateOidcConfig : Except PyError Unit := do
  allOrNone "OIDC" setAllThree [("ATLAS_OIDC_ISSUER", nonempty s.oidcIssuer),
    ("ATLAS_OIDC_AUDIENCE", nonempty s.oidcAudience), ("ATLAS_OIDC_JWKS_URI", nonempty s.oidcJwksUri)]
  if s.oidcEnabled && !s.oidcAllowInsecureHttp then
    requireSecureOidc rt "ATLAS_OIDC_ISSUER" s.oidcIssuer
    requireSecureOidc rt "ATLAS_OIDC_JWKS_URI" s.oidcJwksUri

def validateRateLimitConfig : Except PyError Unit := do
  requirePositive "ATLAS_RATE_LIMIT_REQUESTS" s.rateLimitRequests
  requirePositive "ATLAS_RATE_LIMIT_WINDOW_SECONDS" s.rateLimitWindowSeconds
  if s.rateLimitEnabled then
    allOrNone "Upstash rate-limit" setBoth [("UPSTASH_REDIS_REST_URL", nonempty s.upstashRedisRestUrl),
      ("UPSTASH_REDIS_REST_TOKEN", nonempty s.upstashRedisRestToken)]

def validateEmbeddingConfig : Except PyError Unit := do
  requirePositive "ATLAS_EMBEDDING_DIM" s.embeddingDim
  let model := strip s.embeddingModel
  if model = "" then throw (valueError "ATLAS_EMBEDDING_MODEL must not be blank.")
  match EMBEDDING_MODEL_DIMS.lookup model with
  | some dim =>
    if s.embeddingDim ≠ dim then
      throw (valueError ("ATLAS_EMBEDDING_MODEL " ++ Text.reprStr model ++ " requires ATLAS_EMBEDDING_DIM=" ++
        toString dim ++ "."))
  | none => pure ()
  if s.embeddingsConfigured ∧ model ∉ SUPPORTED_EMBEDDING_MODELS then
    throw (valueError ("Unsupported ATLAS_EMBEDDING_MODEL " ++ Text.reprStr model ++
      "; supported when VOYAGE_API_KEY is set: " ++ ", ".intercalate SUPPORTED_EMBEDDING_MODELS ++ "."))

def validateExtractionConfig : Except PyError Unit := do
  requirePositive "ATLAS_EXTRACTION_MAX_ENTITIES" s.extractionMaxEntities
  requirePositive "ATLAS_EXTRACTION_MAX_RELATIONS" s.extractionMaxRelations
  if s.kgExtractionEnabled then
    if !s.openrouterConfigured then
      throw (valueError ("ATLAS_KG_EXTRACTION_ENABLED is true but OPENROUTER_API_KEY is not set. " ++
        "Provide a key or leave extraction disabled (the deterministic default)."))
    if strip s.extractionModel = "" then
      throw (valueError "ATLAS_EXTRACTION_MODEL must not be blank when extraction is enabled.")

def validateResponderLlmConfig : Except PyError Unit := do
  if s.responderLlmEnabled then
    if !s.openrouterConfigured then
      throw (valueError ("ATLAS_RESPONDER_LLM_ENABLED is true but OPENROUTER_API_KEY is not set. " ++
        "Provide a key or leave the responder LLM disabled (the deterministic default)."))
    if strip s.responderModel = "" then
      throw (valueError "ATLAS_RESPONDER_MODEL must not be blank when the responder LLM is enabled.")

def validateEmailConfig : Except PyError Unit :=
  allOrNone "email" setBoth [("RESEND_API_KEY", nonempty s.resendApiKey),
    ("ATLAS_EMAIL_FROM", nonempty s.emailFrom)]

def validateOauthStateSecret : Except PyError Unit :=
  if s.oauthRoutesEnabled && !nonempty s.oauthStateSecret && !s.oauthAllowInsecureState then
    .error (valueError ("OAuth is enabled but ATLAS_OAUTH_STATE_SECRET is not set. " ++
      "Set a strong secret (openssl rand -base64 32) or " ++
      "ATLAS_OAUTH_ALLOW_INSECURE_STATE=true for dev/test only."))
  else .ok ()

def validateOauthVaultConfig : Except PyError Unit :=
  if s.oauthRoutesEnabled && nonempty s.databaseUrl && !s.vaultConfigured then
    .error (valueError ("OAuth is enabled with DATABASE_URL but Vault is not configured. " ++
      "Set VAULT_ADDR + VAULT_TOKEN (or AppRole) — in-memory vault is not allowed " ++
      "with durable persistence."))
  else .ok ()

/-- All validators, in the order they are declared in. -/
def validate : Except PyError Unit := do
  s.validateVaultConfig
  s.validateAdapterEgressProxy rt
  s.validateGoogleOauthConfig
  s.validateSlackOauthConfig
  s.validateOidcConfig rt
  s.validateRateLimitConfig
  s.validateEmbeddingConfig
  s.validateExtractionConfig
  s.validateResponderLlmConfig
  s.validateEmailConfig
  s.validateOauthStateSecret
  s.validateOauthVaultConfig

end SettingsData

/-- Settings that have been made. -/
structure Settings (rt : ConfigRuntime) extends SettingsData where
  valid : toSettingsData.validate rt = .ok ()

/-! ### What validation says -/

/-- A group passes when it is given in whole or not at all. -/
theorem allOrNone_eq_ok {label advice : String} {fields : List (String × Bool)} :
    allOrNone label advice fields = .ok () ↔ fields.all (·.2) = true ∨ fields.any (·.2) = false := by
  have hset : (fields.filter (·.2)).map (·.1) ≠ [] ↔ fields.any (·.2) = true := by
    simp [List.filter_eq_nil_iff]
  have hunset : (fields.filter (!·.2)).map (·.1) ≠ [] ↔ fields.all (·.2) = false := by
    simp [List.filter_eq_nil_iff]
  rw [allOrNone, Fallible.ite_error_eq_ok, hset, hunset]
  cases fields.all (·.2) <;> cases fields.any (·.2) <;> simp

section valid
variable {rt : ConfigRuntime} (settings : Settings rt)

/-- Every validator has passed. -/
theorem validators_passed :
    settings.validateVaultConfig = .ok () ∧ settings.validateAdapterEgressProxy rt = .ok () ∧
    settings.validateGoogleOauthConfig = .ok () ∧ settings.validateSlackOauthConfig = .ok () ∧
    settings.validateOidcConfig rt = .ok () ∧ settings.validateRateLimitConfig = .ok () ∧
    settings.validateEmbeddingConfig = .ok () ∧ settings.validateExtractionConfig = .ok () ∧
    settings.validateResponderLlmConfig = .ok () ∧ settings.validateEmailConfig = .ok () ∧
    settings.validateOauthStateSecret = .ok () ∧ settings.validateOauthVaultConfig = .ok () := by
  have h := settings.valid
  simp only [SettingsData.validate, Fallible.bind_eq_ok] at h
  obtain ⟨⟨⟩, hvault, ⟨⟩, hproxy, ⟨⟩, hgoogle, ⟨⟩, hslack, ⟨⟩, hoidc, ⟨⟩, hrate, ⟨⟩, hembedding, ⟨⟩,
    hextraction, ⟨⟩, hresponder, ⟨⟩, hemail, ⟨⟩, hstate, hoauth⟩ := h
  exact ⟨hvault, hproxy, hgoogle, hslack, hoidc, hrate, hembedding, hextraction, hresponder, hemail, hstate,
    hoauth⟩

/-- A group with one of its variables given has them all: OAuth clients, the issuer, and the email sender. -/
theorem group_complete :
    (nonempty settings.googleOauthClientId || nonempty settings.googleOauthClientSecret ||
      nonempty settings.googleOauthRedirectUri) = settings.oauthGoogleConfigured ∧
    (nonempty settings.slackOauthClientId || nonempty settings.slackOauthClientSecret ||
      nonempty settings.slackOauthRedirectUri) = settings.oauthSlackConfigured ∧
    (nonempty settings.oidcIssuer || nonempty settings.oidcAudience || nonempty settings.oidcJwksUri) =
      (nonempty settings.oidcIssuer && nonempty settings.oidcAudience && nonempty settings.oidcJwksUri) ∧
    (nonempty settings.resendApiKey || nonempty settings.emailFrom) = settings.emailConfigured := by
  obtain ⟨-, -, hgoogle, hslack, hoidc, -, -, -, -, hemail, -, -⟩ := validators_passed settings
  simp only [SettingsData.validateOidcConfig, Fallible.bind_eq_ok] at hoidc
  obtain ⟨⟨⟩, hoidc, -⟩ := hoidc
  have hwhole : ∀ {a b c : Bool}, ([a, b, c].all id = true ∨ [a, b, c].any id = false) →
      (a || b || c) = (a && b && c) := by decide
  have hpair : ∀ {a b : Bool}, ([a, b].all id = true ∨ [a, b].any id = false) → (a || b) = (a && b) := by
    decide
  exact ⟨hwhole (allOrNone_eq_ok.mp hgoogle), hwhole (allOrNone_eq_ok.mp hslack),
    hwhole (allOrNone_eq_ok.mp hoidc), hpair (allOrNone_eq_ok.mp hemail)⟩

/-- A proxy that is given is an http URL with a usable host and no userinfo, and https where it has
    credentials. -/
theorem proxy_usable (h : settings.adapterEgressProxyEnabled = true) :
    ∃ url, rt.parseUrl (strip settings.adapterEgressProxyUrl) = .ok url ∧ url.scheme ∈ ["http", "https"] ∧
      url.host ≠ "" ∧ url.userinfo = "" ∧ assertProxyHostNotBlocked rt url.host = .ok () ∧
      (settings.adapterEgressProxyAuth.isSome = true → url.scheme = "https") := by
  obtain ⟨-, hproxy, -⟩ := validators_passed settings
  rw [SettingsData.adapterEgressProxyEnabled, bne_iff_ne] at h
  simp only [SettingsData.validateAdapterEgressProxy, Fallible.ite_error_eq_ok, if_neg h,
    Fallible.bind_eq_ok] at hproxy
  obtain ⟨hboth, -, url, hurl, hscheme, hhost, huser, hsecure, hblocked⟩ := hproxy
  refine ⟨url, hurl, not_not.mp hscheme, hhost, not_not.mp huser, hblocked, fun hauth => ?_⟩
  -- credentials come as a pair
  have hpass : nonempty settings.adapterEgressProxyPassword = true := by
    simp only [SettingsData.adapterEgressProxyAuth] at hauth
    split at hauth
    next => cases hauth
    next secret hsecret =>
      split at hauth
      next => cases hauth
      next hne => simpa [nonempty, hsecret] using hne
  rw [Bool.not_eq_true, bne_eq_false_iff_eq] at hboth
  by_contra hplain
  exact hsecure ⟨hboth.trans hpass, hpass, hplain⟩

/-- A service with OAuth and a database keeps its credentials in a vault. -/
theorem vaultConfigured_of_database (hoauth : settings.oauthRoutesEnabled = true)
    (hdatabase : nonempty settings.databaseUrl = true) : settings.vaultConfigured = true := by
  obtain ⟨-, -, -, -, -, -, -, -, -, -, -, hvault⟩ := validators_passed settings
  rw [SettingsData.validateOauthVaultConfig, Fallible.ite_error_eq_ok] at hvault
  simpa [hoauth, hdatabase] using hvault.1

end valid

end Atlas
