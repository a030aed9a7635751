import Atlas.Config
import Atlas.Orchestration.HeuristicPlan

/-! What the factories build from the settings: the stores, the senders that are live, and the registry,
    with the tools of the adapter engine in place of their twins. Two ways of asking for the database stand
    side by side: the stores ask whether its address is the empty text, the senders whether it is there at
    all. They part on an address that is left blank (`live_without_database`). -/

namespace Atlas

open Text

/-! ### Stores -/

inductive Checkpointer where | postgres | sqlite | memory
  deriving DecidableEq, Repr

/-- The audit log, the knowledge graph and the policy. -/
inductive StoreBackend where | postgres | memory
  deriving DecidableEq, Repr

inductive VaultBackend where | hashiCorp | memory
  deriving DecidableEq, Repr

namespace SettingsData
variable (s : SettingsData)

/-- `if settings.database_url`: a secret is true when it is not empty. -/
def hasDatabase : Bool := truthyText s.databaseUrl

def makeCheckpointer : Checkpointer :=
  if s.hasDatabase then .postgres else if truthyText s.sqlitePath then .sqlite else .memory

def makeAuditLog : StoreBackend := if s.hasDatabase then .postgres else .memory

def makeKnowledgeGraph : StoreBackend := if s.hasDatabase then .postgres else .memory

def makePolicyStore : StoreBackend := if s.hasDatabase then .postgres else .memory

def makeCredentialVault : VaultBackend := if s.vaultConfigured then .hashiCorp else .memory

/-- `build_credential_resolver(...) if settings.database_url else None`. -/
def hasCredentialResolver : Bool := s.hasDatabase

end SettingsData

/-! ### Senders -/

/-- What the providers answer at the moment. -/
structure Providers where
  email : EmailMessage → Except PyError Json
  slack : SlackMessage → Except PyError Json
  gmail : GmailMessage → String → Except PyError Json
  calendar : CalendarEvent → String → Except PyError Json

namespace SettingsData
variable (s : SettingsData) (p : Providers)

def buildEmailSender : Option (EmailMessage → Except PyError Json) :=
  if !s.emailConfigured then none
  else
    match s.resendApiKey, s.emailFrom with
    | some _, some _ => some p.email
    | _, _ => none

def resolveEmailSender : Option (EmailMessage → Except PyError Json) :=
  if !s.emailConfigured then none
  else if s.databaseUrl.isNone then none
  else s.buildEmailSender p

def buildSlackSender : Option (SlackMessage → Except PyError Json) :=
  if !s.slackConfigured then none else s.slackBotToken.map fun _ => p.slack

def resolveSlackSender : Option (SlackMessage → Except PyError Json) :=
  if !s.slackConfigured then none
  else if s.databaseUrl.isNone then none
  else s.buildSlackSender p

/-- `_resolve_oauth_tools`: all of the per-user tools are live, or none. -/
def oauthToolsLive (credentialResolver : Bool) : Bool := credentialResolver && s.databaseUrl.isSome

/-- What `default_registry` hands to the tools. -/
def backends (credentialResolver : Bool) : Backends where
  email := s.resolveEmailSender p
  slack := s.resolveSlackSender p
  gmail := if s.oauthToolsLive credentialResolver then some p.gmail else none
  calendar := if s.oauthToolsLive credentialResolver then some p.calendar else none
  slackUser := s.oauthToolsLive credentialResolver
  credentialResolver := s.oauthToolsLive credentialResolver

end SettingsData

/-! ### The adapter engine -/

/-- What building the registry asks of the libraries and of the disk: the schema files under a directory, in
    their order and as they load, or nothing where there is no such directory. -/
structure BuildRuntime extends ConfigRuntime where
  casing : Casing
  coerce : String → Json → Except String Json
  schemaFiles : String → Option (List (Except PyError ToolSchema))
  packagedSchemaDir : String

/-- `load_schema_dir`. -/
def loadSchemaDir (rt : BuildRuntime) (directory : String) : Except PyError (List ToolSchema) :=
  match rt.schemaFiles directory with
  | none => .error ⟨"ToolSchemaError", "schema directory does not exist: " ++ directory⟩
  | some [] => .error ⟨"ToolSchemaError", "schema directory contains no *.json schemas: " ++ directory⟩
  | some files => files.mapM id

inductive Transport where
  | direct
  | proxy (url : String) (auth : Option (String × String))

/-- `ProxyTransport.__init__`. -/
def proxyTransport (rt : ConfigRuntime) (proxyUrl : String) (proxyAuth : Option (String × String)) :
    Except PyError Transport := do
  let parsed ← rt.parseUrl (strip proxyUrl)
  if parsed.scheme ∉ ["http", "https"] then
    .error (egressNotAllowed ("proxy url scheme not allowed: " ++ Text.reprStr parsed.scheme ++
      " (http or https required)"))
  else if parsed.host = "" then .error (egressNotAllowed "proxy url must include a host")
  else
    match assertProxyHostNotBlocked rt parsed.host with
    | .error e => .error (egressNotAllowed e.message)
    | .ok () =>
      if parsed.userinfo ≠ "" then .error (egressNotAllowed "proxy url must not contain userinfo")
      else if proxyAuth.isSome ∧ parsed.scheme ≠ "https" then
        .error (egressNotAllowed ("proxy auth requires an https:// proxy url " ++
          "(credentials must not be sent over plaintext proxy transport)"))
      else .ok (.proxy (strip proxyUrl) proxyAuth)

/-- `make_adapter_transport`. -/
def makeAdapterTransport (rt : ConfigRuntime) (s : SettingsData) : Except PyError Transport :=
  if s.adapterEgressProxyEnabled then
    proxyTransport rt (strip s.adapterEgressProxyUrl) s.adapterEgressProxyAuth
  else .ok .direct

/-- A schema tool in the world of the registry: the resolver is asked for the schema's provider and scopes. -/
def BaseTool.ofSchema (schema : ToolSchema) (tool : BaseTool Outside) : BaseTool ToolWorld where
  name := tool.name
  riskTier := tool.riskTier
  argsSchema := tool.argsSchema
  requiredPermission := tool.requiredPermission
  resourcePermission := tool.resourcePermission
  run := fun args principal w =>
    let (result, after) := tool.run args principal (w.toSlackWorld.outside principal schema)
    (result, { w with sent := after.sent })
  auditMetadata := tool.auditMetadata

section registry
variable (rt : BuildRuntime) (s : SettingsData)

def schemaDir : String := if s.adapterSchemaDir = "" then rt.packagedSchemaDir else s.adapterSchemaDir

/-- The engine of `_apply_adapter_engine`. -/
def adapterEngine (credentialResolver : Bool) : AdapterEngine where
  parseUrl := rt.parseUrl
  argsModel := buildArgsModel rt.coerce
  lower := rt.casing.lower
  configured := credentialResolver
  allowlist := s.adapterEgressAllowlistHosts rt.casing.lower

/-- Build the tool of one schema and register it in the place of its twin. -/
def registerSchema (engine : AdapterEngine) (registry : ToolRegistry ToolWorld) (schema : ToolSchema) :
    Except PyError (ToolRegistry ToolWorld) := do
  let tool ← engine.buildTool schema
  registry.register (tool.ofSchema schema) true

/-- `_apply_adapter_engine`. -/
def applyAdapterEngine (credentialResolver : Bool) (registry : ToolRegistry ToolWorld) :
    Except PyError (ToolRegistry ToolWorld) := do
  let allowlist := s.adapterEgressAllowlistHosts rt.casing.lower
  let schemas ← loadSchemaDir rt (schemaDir rt s)
  let _policy ← buildEgressPolicy rt.parseUrl rt.casing.lower schemas allowlist
  let _transport ← makeAdapterTransport rt.toConfigRuntime s
  schemas.foldlM (registerSchema (adapterEngine rt s credentialResolver)) registry

/-- The registry that `build_graph` hands to the nodes. -/
def buildRegistry (p : Providers) : Except PyError (ToolRegistry ToolWorld) := do
  let resolver := s.hasCredentialResolver
  let registry ← standardRegistry rt.casing rt.coerce (s.backends p resolver)
  if s.adapterEngineEnabled then applyAdapterEngine rt s resolver registry else return registry

/-- The schemas whose tools are in the registry. -/
def activeSchemas : List ToolSchema :=
  if s.adapterEngineEnabled then (loadSchemaDir rt (schemaDir rt s)).toOption.getD [] else []

end registry

/-! ### What the wiring says -/

section facts
variable (s : SettingsData) (p : Providers)

theorem resolveEmailSender_eq :
    s.resolveEmailSender p = if s.emailConfigured && s.databaseUrl.isSome then some p.email else none := by
  rw [SettingsData.resolveEmailSender, SettingsData.buildEmailSender]
  cases hconfigured : s.emailConfigured with
  | false => rfl
  | true =>
    rw [SettingsData.emailConfigured, Bool.and_eq_true] at hconfigured
    obtain ⟨key, hkey⟩ := exists_of_nonempty hconfigured.1
    obtain ⟨address, haddress⟩ := exists_of_nonempty hconfigured.2
    rw [hkey, haddress]
    cases s.databaseUrl <;> rfl

theorem resolveSlackSender_eq :
    s.resolveSlackSender p = if s.slackConfigured && s.databaseUrl.isSome then some p.slack else none := by
  rw [SettingsData.resolveSlackSender, SettingsData.buildSlackSender]
  cases hconfigured : s.slackConfigured with
  | false => rfl
  | true =>
    obtain ⟨token, htoken⟩ := exists_of_nonempty hconfigured
    rw [htoken]
    cases s.databaseUrl <;> rfl

/-- The address of the database is given but empty: the one way not to have it and not to be without it. -/
theorem databaseUrl_eq_blank (h : s.hasDatabase = false) :
    s.databaseUrl.isSome = true ↔ s.databaseUrl = some "" := by
  unfold SettingsData.hasDatabase truthyText at h
  cases hurl : s.databaseUrl with
  | none => simp
  | some url => simpa [hurl] using h

/-- A sender is live over an audit log in memory exactly where the address of the database is left blank. -/
theorem live_without_database :
    ((s.resolveEmailSender p).isSome = true ∧ s.makeAuditLog = .memory ↔
      s.emailConfigured = true ∧ s.databaseUrl = some "") ∧
    ((s.resolveSlackSender p).isSome = true ∧ s.makeAuditLog = .memory ↔
      s.slackConfigured = true ∧ s.databaseUrl = some "") := by
  have hblank : ∀ {configured : Bool}, (configured && s.databaseUrl.isSome) = true ∧ s.makeAuditLog = .memory ↔
      configured = true ∧ s.databaseUrl = some "" := by
    intro configured
    cases hdatabase : s.hasDatabase with
    | false =>
      rw [SettingsData.makeAuditLog, hdatabase, Bool.and_eq_true, databaseUrl_eq_blank s hdatabase]
      simp
    | true =>
      rw [SettingsData.makeAuditLog, hdatabase]
      refine iff_of_false (fun h => by cases h.2) fun h => ?_
      rw [SettingsData.hasDatabase, h.2] at hdatabase
      cases hdatabase
  rw [resolveEmailSender_eq, resolveSlackSender_eq, ← hblank, ← hblank]
  constructor <;> split <;> simp_all

/-- The per-user tools are live only over the database. -/
theorem oauthToolsLive_eq : s.oauthToolsLive s.hasCredentialResolver = s.hasDatabase := by
  unfold SettingsData.oauthToolsLive SettingsData.hasCredentialResolver SettingsData.hasDatabase truthyText
  cases s.databaseUrl <;> simp

/-- The transport takes every proxy that validation has let through. -/
theorem exists_makeAdapterTransport {rt : ConfigRuntime} (settings : Settings rt) :
    ∃ transport, makeAdapterTransport rt settings.toSettingsData = .ok transport := by
  rw [makeAdapterTransport]
  split
  next hproxy =>
    obtain ⟨url, hurl, hscheme, hhost, huser, hblocked, hauth⟩ := proxy_usable settings hproxy
    rw [proxyTransport, strip_strip, hurl]
    simp only [Fallible.ok_bind, not_not.mpr hscheme, hhost, hblocked, huser, if_false, ne_eq, not_true]
    refine ⟨_, if_neg ?_⟩
    rintro ⟨hsome, hplain⟩
    exact hplain (hauth hsome)
  next => exact ⟨_, rfl⟩

end facts

/-! ### What is in the registry -/

section lookup
variable {σ : Type} {reg reg' : ToolRegistry σ}

theorem get_register {tool : BaseTool σ} {replace : Bool} (h : reg.register tool replace = .ok reg')
    (n : String) : reg'.get n = if n = tool.name then .ok tool else reg.get n := by
  simp only [ToolRegistry.register, Fallible.ite_error_eq_ok] at h
  obtain ⟨-, h⟩ := h
  cases h
  by_cases hn : n = tool.name
  · simp [ToolRegistry.get, hn]
  · simp [ToolRegistry.get, Dict.get?_set_ne _ _ hn, hn]

/-- What a row of registrations leaves under a name was there before or is one of them. -/
theorem mem_of_registerAll {tools : List (BaseTool σ)} {n : String} {t : BaseTool σ}
    (h : tools.foldlM (fun reg tool => reg.register tool) reg = .ok reg') (hget : reg'.get n = .ok t) :
    t ∈ tools ∨ reg.get n = .ok t := by
  induction tools generalizing reg with
  | nil =>
    cases h
    exact Or.inr hget
  | cons tool tools ih =>
    rw [List.foldlM_cons, Fallible.bind_eq_ok] at h
    obtain ⟨next, hnext, hrest⟩ := h
    rcases ih hrest with hmem | hold
    · exact Or.inl (List.mem_cons_of_mem _ hmem)
    · rw [get_register hnext] at hold
      split at hold
      next => cases hold; exact Or.inl List.mem_cons_self
      next => exact Or.inr hold

end lookup

/-- Under a name stands the tool of a schema of that name, or, where no schema has it, what stood there. -/
theorem get_of_registerSchemas {engine : AdapterEngine} {schemas : List ToolSchema}
    {reg reg' : ToolRegistry ToolWorld} (h : schemas.foldlM (registerSchema engine) reg = .ok reg') (n : String) :
    (∃ schema ∈ schemas, schema.name = n ∧ ∃ tool, engine.buildTool schema = .ok tool ∧
      reg'.get n = .ok (tool.ofSchema schema)) ∨
    n ∉ schemas.map (·.name) ∧ reg'.get n = reg.get n := by
  induction schemas generalizing reg with
  | nil =>
    cases h
    exact Or.inr ⟨List.not_mem_nil, rfl⟩
  | cons schema schemas ih =>
    simp only [List.foldlM_cons, Fallible.bind_eq_ok, registerSchema] at h
    obtain ⟨next, ⟨tool, htool, hnext⟩, hrest⟩ := h
    obtain ⟨host, hschema⟩ := buildTool_eq_ok htool
    have hname : (tool.ofSchema schema).name = schema.name := by rw [hschema]; rfl
    rcases ih hrest with ⟨other, hother, hfound⟩ | ⟨hnone, hsame⟩
    · exact Or.inl ⟨other, List.mem_cons_of_mem _ hother, hfound⟩
    · rw [get_register hnext, hname] at hsame
      split at hsame
      next hn => exact Or.inl ⟨schema, List.mem_cons_self, hn.symm, tool, htool, hsame⟩
      next hn =>
        refine Or.inr ⟨fun hmem => ?_, hsame⟩
        rw [List.map_cons, List.mem_cons] at hmem
        exact hmem.elim hn hnone

section built
variable {rt : BuildRuntime} {s : SettingsData} {p : Providers} {reg : ToolRegistry ToolWorld}

/-- A registered tool comes from a loaded schema, or it is a standard tool that no schema replaces. -/
theorem tool_of_buildRegistry (h : buildRegistry rt s p = .ok reg) {n : String} {tool : BaseTool ToolWorld}
    (hget : reg.get n = .ok tool) :
    (∃ schema ∈ activeSchemas rt s, schema.name = n ∧ ∃ made,
      (adapterEngine rt s s.hasCredentialResolver).buildTool schema = .ok made ∧
      tool = made.ofSchema schema) ∨
    n ∉ (activeSchemas rt s).map (·.name) ∧
      tool ∈ standardTools rt.casing rt.coerce (s.backends p s.hasCredentialResolver) := by
  simp only [buildRegistry, Fallible.bind_eq_ok] at h
  obtain ⟨standard, hstandard, h⟩ := h
  have hmember : ∀ {t}, standard.get n = .ok t →
      t ∈ standardTools rt.casing rt.coerce (s.backends p s.hasCredentialResolver) := by
    intro t ht
    exact (mem_of_registerAll hstandard ht).resolve_right (by rintro ⟨⟩)
  unfold activeSchemas
  split at h
  next henabled =>
    simp only [applyAdapterEngine, Fallible.bind_eq_ok] at h
    obtain ⟨schemas, hschemas, -, -, -, -, hfold⟩ := h
    rw [if_pos henabled, hschemas]
    rcases get_of_registerSchemas hfold n with ⟨schema, hmem, hname, made, hmade, hfound⟩ | ⟨hnone, hsame⟩
    · rw [hget, Except.ok.injEq] at hfound
      exact Or.inl ⟨schema, hmem, hname, made, hmade, hfound⟩
    · exact Or.inr ⟨hnone, hmember (hsame ▸ hget)⟩
  next henabled =>
    rw [Fallible.pure_eq_ok] at h
    rw [if_neg henabled]
    exact Or.inr ⟨List.not_mem_nil, hmember (h ▸ hget)⟩

/-- A standard tool that no schema replaces is there. -/
theorem get_standardTool (h : buildRegistry rt s p = .ok reg) {tool : BaseTool ToolWorld}
    (htool : tool ∈ standardTools rt.casing rt.coerce (s.backends p s.hasCredentialResolver))
    (hkept : tool.name ∉ (activeSchemas rt s).map (·.name)) : reg.get tool.name = .ok tool := by
  simp only [buildRegistry, Fallible.bind_eq_ok] at h
  obtain ⟨standard, hstandard, h⟩ := h
  have hget := (get_of_registerAll hstandard).1 tool htool
  unfold activeSchemas at hkept
  split at h
  next henabled =>
    simp only [applyAdapterEngine, Fallible.bind_eq_ok] at h
    obtain ⟨schemas, hschemas, -, -, -, -, hfold⟩ := h
    rw [if_pos henabled, hschemas] at hkept
    rcases get_of_registerSchemas hfold tool.name with ⟨schema, hmem, hname, -⟩ | ⟨-, hsame⟩
    · exact absurd (List.mem_map.mpr ⟨schema, hmem, hname⟩) hkept
    · rw [hsame, hget]
  next =>
    rw [Fallible.pure_eq_ok] at h
    rw [← h, hget]

end built

/-! ### A bare deployment -/

/-- Libraries that know no URL and no address, and an empty disk. -/
def bareRuntime : BuildRuntime where
  parseUrl url := .error ⟨"InvalidURL", url⟩
  urlparse url := .error (valueError url)
  ipAddress _ := none
  isLoopback _ := false
  isLinkLocal _ := false
  isMulticast _ := false
  isUnspecified _ := false
  casing := asciiCasing
  coerce := stringsOnly
  schemaFiles _ := none
  packagedSchemaDir := "tool_schemas"

/-- Providers that take everything. -/
def agreeable : Providers where
  email _ := .ok .null
  slack _ := .ok .null
  gmail _ _ := .ok .null
  calendar _ _ := .ok .null

end Atlas
