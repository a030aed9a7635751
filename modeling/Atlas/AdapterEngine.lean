import Atlas.Tools
import Atlas.ToolEgress
import Atlas.Governance.Credentials

/-! The adapter engine: a declarative tool schema becomes a tool of the registry. What a schema must
    satisfy to exist at all is part of its type; what the engine adds is the check of risk tier,
    permission and endpoint (`validateSecurity`). A run resolves a token, maps the arguments to the
    payload, posts it and shapes the reply. -/

namespace Atlas

open Text

/-- One declared tool argument. -/
structure ArgSpec where
  name : String
  type : String := "str"
  required : Bool := true
  minLength : Option ℕ := none
  maxLength : Option ℕ := none
  deriving DecidableEq, Repr

/-- An outbound field: copy an argument or emit a constant. -/
inductive PayloadField where
  | arg (name : String)
  | value (v : Json)

/-- A field of the shaped result: a top-level key of the response or a constant. -/
inductive ResponseField where
  | path (key : String)
  | value (v : Json)

/-- Lower-case identifiers outside the reserved namespace. -/
def safeArgName (name : String) : Bool :=
  match name.toList with
  | [] => false
  | c :: cs => ('a' ≤ c && c ≤ 'z') &&
      cs.all (fun c => ('a' ≤ c && c ≤ 'z') || ('0' ≤ c && c ≤ '9') || c == '_') &&
      !hasPrefix "model_" name

/-- A validated tool schema. -/
structure ToolSchema where
  name : String
  schemaVersion : String := "1"
  riskTier : RiskTier := .send
  requiredPermission : Option String := none
  resourcePermissionArg : Option String := none
  provider : OAuthProvider
  requiredScopes : List String := []
  endpoint : String
  args : List ArgSpec := []
  payload : List (String × PayloadField) := []
  response : List (String × ResponseField) := []
  okField : Option String := some "ok"
  name_ne : name ≠ ""
  endpoint_ne : endpoint ≠ ""
  args_safe : ∀ a ∈ args, safeArgName a.name = true ∧ a.type ∈ ["str", "int", "bool"]
  payload_declared : ∀ key name, (key, PayloadField.arg name) ∈ payload → name ∈ args.map (·.name)
  resource_declared : ∀ name, resourcePermissionArg = some name →
    ∃ a, args.find? (·.name == name) = some a ∧ a.type = "str" ∧ a.required = true

/-- What a built engine works with: the URL parser, the generated argument models, lower-casing, and
    whether resolver and transport are wired. -/
structure AdapterEngine where
  parseUrl : String → Except PyError Url
  argsModel : ToolSchema → Args → Except PyError Args
  lower : String → String
  configured : Bool
  allowlist : List String
  readTierAllowlist : List String := []

/-- The runtime egress policy: the host allowlist and one route for each schema. -/
def buildEgressPolicy (parse : String → Except PyError Url) (lower : String → String)
    (schemas : List ToolSchema) (allowedHosts : List String) : Except PyError EgressPolicy := do
  let routes ← schemas.mapM (fun s => (parse s.endpoint).map (Url.route lower))
  return EgressPolicy.make lower allowedHosts routes

/-- The field a declared argument becomes; length bounds apply to strings only. -/
def ArgSpec.fieldDef (spec : ArgSpec) : FieldDef where
  name := spec.name
  type := spec.type
  required := spec.required
  minLength := if spec.type = "str" then spec.minLength else none
  maxLength := if spec.type = "str" then spec.maxLength else none

/-- `field_defs`: of the arguments with one name the last defines the field, in the place of the first. -/
def fieldDefs (schema : ToolSchema) : Dict String FieldDef :=
  Dict.empty.setAll (·.name) (schema.args.map ArgSpec.fieldDef)

/-- `_build_args_model`: the argument model generated from the declared arguments. -/
def buildArgsModel (coerce : String → Json → Except String Json) (schema : ToolSchema) :
    Args → Except PyError Args :=
  modelValidate coerce (schema.name ++ "_args") (fieldDefs schema).values

/-- Map validated arguments to the payload by the schema's field map. -/
def buildPayload (schema : ToolSchema) (args : Args) : Args :=
  schema.payload.map fun (key, field) =>
    (key, match field with
      | .arg name => (Json.field? name args).getD .null
      | .value v => v)

/-- Shape the response by the schema's field map; a declared key the response lacks is an error. -/
def shapeResponse (data : Args) : List (String × ResponseField) → Except PyError Args
  | [] => .ok []
  | (key, field) :: fields => do
    let v ← match field with
      | .path name =>
        match Json.field? name data with
        | some v => Except.ok v
        | none => .error ⟨"RuntimeError", "provider response missing required field: " ++ Text.reprStr name⟩
      | .value v => .ok v
    let shaped ← shapeResponse data fields
    return (key, v) :: shaped

/-- The channel segment of a permission: a `#name` is a name, in lower case. -/
def slackChannelResourceSegment (lower : String → String) (channel : String) : String :=
  if hasPrefix "#" channel then "channel:" ++ lower (dropChars 1 channel) else "channel:" ++ channel

/-- The provider's reply says that it did what it was asked to. -/
def okReply (schema : ToolSchema) (data : Args) : Bool :=
  match schema.okField with
  | none => true
  | some key => ((Json.field? key data).map Json.truthy).getD false

/-- What `run` makes of a decoded reply. -/
def handleReply (schema : ToolSchema) (data : Args) : Except PyError Json :=
  if okReply schema data then (shapeResponse data schema.response).map Json.obj
  else
    let error := (Json.field? "error" data).getD .null
    .error ⟨"RuntimeError", if error.truthy then error.pyStr else schema.provider.value ++ " API error"⟩

namespace AdapterEngine

/-- `_SchemaTool.run`. -/
def runTool (engine : AdapterEngine) (schema : ToolSchema) (args : Args) (w : Outside) :
    Except PyError Json × Outside :=
  if !engine.configured then (.error ⟨"RuntimeError", schema.name ++ " not configured"⟩, w)
  else
    let n := w.runs
    let w := { w with runs := n + 1 }
    match w.accessToken n with
    | .error e => (.error e, w)
    | .ok token =>
      match postJson schema.endpoint (buildPayload schema args) token w (w.delivery n) with
      | (.error e, w) => (.error e, w)
      | (.ok data, w) => (handleReply schema data, w)

/-- `_SchemaTool.resource_permission` of validated arguments. -/
def resourcePermission (engine : AdapterEngine) (schema : ToolSchema) (args : Args) :
    Except PyError (Option String) :=
  match schema.resourcePermissionArg with
  | none => .ok none
  | some name =>
    match Json.field? name args with
    | none => .error ⟨"AttributeError", Text.reprStr (schema.name ++ "_args") ++ " object has no attribute " ++
        Text.reprStr name⟩
    | some (.str value) =>
      if name = "channel" then .ok (some (slackChannelResourceSegment engine.lower value))
      else .ok (some (name ++ ":" ++ value))
    | some v =>
      if name = "channel" then
        .error ⟨"AttributeError", Text.reprStr v.typeName ++ " object has no attribute 'startswith'"⟩
      else .ok (some (name ++ ":" ++ v.pyStr))

/-- `_validate_security`. -/
def validateSecurity (engine : AdapterEngine) (schema : ToolSchema) : Except PyError Unit := do
  if schema.riskTier = .read ∧ schema.name ∉ engine.readTierAllowlist then
    throw ⟨"ToolSchemaError", "schema '" ++ schema.name ++
      "' may not declare auto-run READ tier (not code-allowlisted)"⟩
  if schema.riskTier ≠ .read ∧ schema.requiredPermission.getD "" = "" then
    throw ⟨"ToolSchemaError", "schema '" ++ schema.name ++ "' is a side-effecting tool (" ++
      schema.riskTier.value ++ ") and must declare a required_permission"⟩
  assertHostAllowed engine.parseUrl engine.lower schema.endpoint engine.allowlist

/-- The tool of a schema. -/
def schemaTool (engine : AdapterEngine) (schema : ToolSchema) (host : String) : BaseTool Outside where
  name := schema.name
  riskTier := schema.riskTier
  argsSchema := engine.argsModel schema
  requiredPermission := schema.requiredPermission
  resourcePermission := engine.resourcePermission schema
  run := fun args _ w => engine.runTool schema args w
  auditMetadata := {
    schema := some schema.name
    schemaVersion := some schema.schemaVersion
    destinationHost := some host
    provider := some schema.provider.value }

/-- `build_tool`: validate a schema, then build its tool. -/
def buildTool (engine : AdapterEngine) (schema : ToolSchema) : Except PyError (BaseTool Outside) := do
  engine.validateSecurity schema
  let url ← engine.parseUrl schema.endpoint
  return engine.schemaTool schema (engine.lower url.host)

end AdapterEngine

/-- The packaged schema of the tool that posts as the authenticated user. -/
def slackPostSchema : ToolSchema where
  name := "slack_post_as_user"
  requiredPermission := some "tool:slack:post_as_user"
  provider := .slack
  requiredScopes := ["chat:write"]
  endpoint := "https://slack.com/api/chat.postMessage"
  args := [{ name := "channel", minLength := some 1 },
    { name := "text", minLength := some 1, maxLength := some 40000 }]
  payload := [("channel", .arg "channel"), ("text", .arg "text"), ("unfurl_links", .value (.bool false)),
    ("unfurl_media", .value (.bool false))]
  response := [("ts", .path "ts"), ("channel", .path "channel"), ("provider", .value (.str "slack_user"))]
  name_ne := by decide
  endpoint_ne := by decide
  args_safe := by decide
  payload_declared := by
    intro key name h
    simp only [List.mem_cons, Prod.mk.injEq, PayloadField.arg.injEq, reduceCtorEq, and_false,
      List.not_mem_nil, or_false] at h
    rcases h with ⟨-, rfl⟩ | ⟨-, rfl⟩ <;> simp
  resource_declared := by simp

end Atlas
