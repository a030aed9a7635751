import Atlas.EgressRoutes
import Atlas.ResourceScope

/-! Resource permissions of schema-built tools. The permission of an action is stamped with the resource
    argument in a spelling of its own, a `#name` of a channel in lower case, while a run sends the argument
    as it was given. A grant therefore names what is sent exactly where the argument is spelled the way the
    permission spells it (`schemaTool_sends_granted_iff`). -/

namespace Atlas

open Text

/-! ### What an action sends -/

/-- Whatever running an action sends under a payload key is as `names` says. -/
def SendsOnly (reg : ToolRegistry Outside) (a : ProposedAction) (key : String) (names : Json → Prop) : Prop :=
  ∀ principal w, ∃ sent, (reg.execute a principal w).2.sent = w.sent ++ sent ∧
    ∀ m ∈ sent, ∃ v, Json.field? key m.payload = some v ∧ names v

/-- The two spellings of a resource: as it is named, or with a leading hash. -/
def Spells (resource : String) (v : Json) : Prop := v = .str resource ∨ v = .str ("#" ++ resource)

/-- An action sends what is granted for it: its permission is the stem with one resource, so is every grant
    without a wildcard that satisfies the permission, and that resource is all that is sent. -/
structure SendsGranted (reg : ToolRegistry Outside) (stem key : String) (a : ProposedAction) : Prop where
  stamped : ∃ resource, a.requiredPermission = some (stem ++ resource) ∧
    SendsOnly reg a key (Spells resource)
  grant : ∀ g, g ≠ WILDCARD → hasSuffix ":*" g = false →
    (∃ required, a.requiredPermission = some required ∧ permissionSatisfied [g] required = true) →
    ∃ resource, g = stem ++ resource ∧ SendsOnly reg a key (Spells resource)

/-- Two actions send what is granted for them, and to one resource if their permissions are the same. -/
structure BothSendGranted (reg : ToolRegistry Outside) (stem key : String) (a b : ProposedAction) :
    Prop where
  first : SendsGranted reg stem key a
  second : SendsGranted reg stem key b
  same : a.requiredPermission = b.requiredPermission →
    ∃ resource, SendsOnly reg a key (Spells resource) ∧ SendsOnly reg b key (Spells resource)

/-- The argument is spelled as its permission spells it: it is text, and what follows the hash of a channel
    is in lower case. -/
def SpelledAsGranted (lower : String → String) (schema : ToolSchema) (name : String) (raw : Args) : Prop :=
  TextSupplied schema name raw ∧
    (name = "channel" → ∀ s, Json.field? name raw = some (.str ("#" ++ s)) → lower s = s)

/-! ### The resource of a permission -/

/-- The resource that a permission names for an argument. -/
def namedResource (lower : String → String) (name : String) : Json → String
  | .str s => if name = "channel" ∧ hasPrefix "#" s = true then lower (dropChars 1 s) else s
  | v => v.pyStr

theorem resourceSegment_eq (lower : String → String) (name s : String) :
    resourceSegment lower name s = name ++ ":" ++ namedResource lower name (.str s) := by
  rw [resourceSegment, namedResource]
  by_cases hname : name = "channel"
  · subst hname
    rw [if_pos rfl, slackChannelResourceSegment]
    by_cases hhash : hasPrefix "#" s = true
    · rw [if_pos hhash, if_pos ⟨rfl, hhash⟩]
      rfl
    · rw [if_neg hhash, if_neg (fun h => hhash h.2)]
      rfl
  · rw [if_neg hname, if_neg fun h => hname h.1]

/-- A lower-cased text is no longer the text with a hash before it. -/
theorem lower_ne_hash (casing : Casing) (s : String) : casing.lower s ≠ "#" ++ s := by
  intro h
  have hagain : casing.lower ("#" ++ s) = "#" ++ s := by rw [← h, casing.lower_lower]
  rw [casing.lower_hash, h, String.append_right_inj] at hagain
  have hlength := congrArg String.length hagain
  simp at hlength

/-- The text of an argument is a spelling of the resource that its permission names, unless it is a channel
    whose name is not in lower case. -/
theorem spells_namedResource_iff (casing : Casing) (name s : String) :
    Spells (namedResource casing.lower name (.str s)) (.str s) ↔
      (name = "channel" → ∀ t, s = "#" ++ t → casing.lower t = t) := by
  rw [Spells, namedResource, Json.str.injEq, Json.str.injEq]
  by_cases hchannel : name = "channel" ∧ hasPrefix "#" s = true
  · obtain ⟨hname, hhash⟩ := hchannel
    obtain ⟨t, rfl⟩ := hasPrefix_iff.mp hhash
    have hrest : dropChars 1 ("#" ++ t) = t := dropChars_append "#" t
    rw [if_pos ⟨hname, hhash⟩, hrest, String.append_right_inj]
    constructor
    · rintro (h | h) - u hu
      · exact absurd h.symm (lower_ne_hash casing t)
      · obtain rfl : t = u := (String.append_right_inj _).mp hu
        exact h.symm
    · exact fun h => Or.inr (h hname t rfl).symm
  · rw [if_neg hchannel]
    refine iff_of_true (Or.inl rfl) fun hname t ht => ?_
    exact absurd ⟨hname, hasPrefix_iff.mpr ⟨t, ht⟩⟩ hchannel

/-- Only a text is a spelling of a resource. -/
theorem eq_str_of_spells {resource : String} {v : Json} (h : Spells resource v) : ∃ s, v = .str s := by
  rcases h with rfl | rfl
  · exact ⟨_, rfl⟩
  · exact ⟨_, rfl⟩

section tool
variable {engine : AdapterEngine} {coerce : String → Json → Except String Json} {schema : ToolSchema}
  {name key : String} {raw values : Args}

/-- A resource segment is made of the value of the argument. -/
theorem resourcePermission_eq_ok {args : Args} {segment : Option String}
    (hresource : schema.resourcePermissionArg = some name)
    (h : engine.resourcePermission schema args = .ok segment) :
    ∃ v, Json.field? name args = some v ∧
      segment = some (name ++ ":" ++ namedResource engine.lower name v) := by
  simp only [AdapterEngine.resourcePermission, hresource] at h
  cases hv : Json.field? name args with
  | none => simp [hv] at h
  | some v =>
    refine ⟨v, rfl, ?_⟩
    cases v with
    | str s =>
      rw [← resourceSegment_eq, resourceSegment]
      simp only [hv] at h
      split at h
      next hname =>
        rw [if_pos hname]
        exact (Except.ok.inj h).symm
      next hname =>
        rw [if_neg hname]
        exact (Except.ok.inj h).symm
    | _ =>
      simp only [hv] at h
      split at h
      next => cases h
      next => exact (Except.ok.inj h).symm

/-- What a field of the payload is sent as. -/
def payloadValue (args : Args) : PayloadField → Json
  | .arg name => (Json.field? name args).getD .null
  | .value v => v

/-- A copied argument is in the payload with its validated value. -/
theorem field?_buildPayload (hkey : schema.payload.lookup key = some (.arg name)) (args : Args) :
    Json.field? key (buildPayload schema args) = some ((Json.field? name args).getD .null) := by
  have hlookup := Dict.lookup_map_values (payloadValue args) key schema.payload
  rw [hkey] at hlookup
  exact hlookup

/-- A run sends the payload of its arguments, or nothing. -/
theorem runTool_sent (args : Args) (w : Outside) : ∃ sent, (engine.runTool schema args w).2.sent =
    w.sent ++ sent ∧ ∀ m ∈ sent, m.payload = buildPayload schema args := by
  have hnone : ∃ sent, w.sent = w.sent ++ sent ∧ ∀ m ∈ sent, m.payload = buildPayload schema args :=
    hands_nothing
  unfold AdapterEngine.runTool
  split
  next => exact hnone
  next =>
    cases htoken : w.accessToken w.runs with
    | error e => simpa only [htoken] using hnone
    | ok token =>
      cases hdelivery : w.delivery w.runs with
      | refused e => simpa only [htoken, hdelivery, postJson] using hnone
      | lost e =>
        refine ⟨[⟨schema.endpoint, buildPayload schema args, token, none⟩], ?_, by simp⟩
        simp only [htoken, hdelivery, postJson]
      | answered response =>
        refine ⟨[⟨schema.endpoint, buildPayload schema args, token, some response⟩], ?_, by simp⟩
        simp only [htoken, hdelivery, postJson]
        cases decodeJsonResponse response <;> rfl

/-- A world in which a run sends its payload. -/
def openWorld : Outside where
  accessToken _ := .ok "token"
  delivery _ := .lost ⟨"ConnectTimeout", ""⟩

theorem runTool_openWorld (hconf : engine.configured = true) (args : Args) :
    (engine.runTool schema args openWorld).2.sent =
      [⟨schema.endpoint, buildPayload schema args, "token", none⟩] := by
  simp [AdapterEngine.runTool, hconf, openWorld, postJson]

/-- A built tool that may not run by itself has a base permission. -/
theorem exists_base_of_buildTool {tool : BaseTool Outside} (hread : engine.readTierAllowlist = [])
    (h : engine.buildTool schema = .ok tool) : ∃ base host, schema.requiredPermission = some base ∧
      tool = engine.schemaTool schema host := by
  simp only [AdapterEngine.buildTool, Fallible.bind_eq_ok, Fallible.pure_eq_ok] at h
  obtain ⟨⟨⟩, hsecurity, url, -, rfl⟩ := h
  unfold AdapterEngine.validateSecurity at hsecurity
  by_cases htier : schema.riskTier = .read
  · rw [if_pos ⟨htier, by simp [hread]⟩] at hsecurity
    cases hsecurity
  · rw [if_neg (fun h => htier h.1)] at hsecurity
    cases hbase : schema.requiredPermission with
    | some base => exact ⟨base, _, rfl, rfl⟩
    | none =>
      rw [if_pos ⟨htier, by simp [hbase]⟩] at hsecurity
      cases hsecurity


/-! ### Accepted actions -/

/-- An action that the registry accepted for the tool, and what it was proposed with. -/
structure Accepted (engine : AdapterEngine) (coerce : String → Json → Except String Json)
    (schema : ToolSchema) (reg : ToolRegistry Outside) (raw : Args) (a : ProposedAction) : Prop where
  model : engine.argsModel = buildArgsModel coerce
  tool : ∃ host, reg.get a.tool = .ok (engine.schemaTool schema host)
  valid : buildArgsModel coerce schema raw = .ok a.args
  permission : (engine.resourcePermission schema a.args).map (combinePermission schema.requiredPermission) =
    .ok a.requiredPermission

section accepted
variable {reg : ToolRegistry Outside} {a b : ProposedAction} {names : Json → Prop}

/-- What an accepted action sends under the key of the argument is the validated value of the argument. -/
theorem Accepted.sendsOnly_iff (h : Accepted engine coerce schema reg raw a) (hcoerce : Coercion coerce)
    (hkey : schema.payload.lookup key = some (.arg name)) (hconf : engine.configured = true) :
    SendsOnly reg a key names ↔ names ((Json.field? name a.args).getD .null) := by
  obtain ⟨host, hget⟩ := h.tool
  have hresolve : reg.resolve a = .ok (engine.schemaTool schema host, a.args) := by
    refine ToolRegistry.resolve_eq_ok.mpr ⟨hget, ?_⟩
    rw [AdapterEngine.schemaTool, h.model]
    exact buildArgsModel_revalidates hcoerce h.valid
  have hworld : ∀ principal w, (reg.execute a principal w).2 = (engine.runTool schema a.args w).2 := by
    intro principal w
    have hrun : (engine.schemaTool schema host).run a.args principal w = engine.runTool schema a.args w := rfl
    rw [ToolRegistry.execute, hresolve]
    simp only [hrun]
    split
    next hw => rw [hw]
    next hw => rw [hw]
  constructor
  · intro hsends
    obtain ⟨sent, hsent, hnames⟩ := hsends Principal.anonymous openWorld
    rw [hworld, runTool_openWorld hconf] at hsent
    obtain rfl : [_] = sent := hsent
    obtain ⟨v, hv, hname⟩ := hnames _ List.mem_cons_self
    rw [field?_buildPayload hkey] at hv
    rw [Option.some.inj hv]
    exact hname
  · intro hname principal w
    obtain ⟨sent, hsent, hpayload⟩ : ∃ sent, (engine.runTool schema a.args w).2.sent = w.sent ++ sent ∧
      ∀ m ∈ sent, m.payload = buildPayload schema a.args := runTool_sent a.args w
    rw [hworld]
    refine ⟨sent, hsent, fun m hm => ⟨_, ?_, hname⟩⟩
    rw [hpayload m hm, field?_buildPayload hkey]

/-- The permission of an accepted action is the stem with the resource that the validated value names. -/
theorem Accepted.stamped (h : Accepted engine coerce schema reg raw a)
    (hresource : schema.resourcePermissionArg = some name) {base : String}
    (hbase : schema.requiredPermission = some base) :
    a.requiredPermission = some (base ++ ":" ++ name ++ ":" ++
      namedResource engine.lower name ((Json.field? name a.args).getD .null)) := by
  obtain ⟨resource, hpermission, hstamped⟩ := Fallible.map_eq_ok.mp h.permission
  obtain ⟨v, hv, rfl⟩ := resourcePermission_eq_ok hresource hpermission
  rw [← hstamped, hbase, hv, combinePermission, Option.getD_some]
  simp only [← String.append_assoc]

/-- The validated value is a text exactly if that text was supplied for a text argument. -/
theorem Accepted.text_iff (h : Accepted engine coerce schema reg raw a) (hcoerce : Coercion coerce)
    (hresource : schema.resourcePermissionArg = some name) (s : String) :
    (Json.field? name a.args).getD .null = .str s ↔
      TextSupplied schema name raw ∧ Json.field? name raw = some (.str s) := by
  obtain ⟨spec, hspec, -⟩ := schema.resource_declared name hresource
  have hdeclared : name ∈ schema.args.map (·.name) :=
    List.mem_map.mpr ⟨spec, List.mem_of_find?_eq_some hspec, by simpa using List.find?_some hspec⟩
  obtain ⟨last, hlast⟩ := exists_lastSpec hdeclared
  obtain ⟨v, hv, htyped⟩ := field?_buildArgsModel hcoerce h.valid hlast
  rw [hv, Option.getD_some]
  constructor
  · rintro rfl
    rcases htyped with ⟨hsupplied, htype, hkept⟩ | ⟨-, hnull⟩
    · have hstr : last.type = "str" := by simpa [Json.hasType] using htype
      exact ⟨⟨⟨last, hlast, hstr⟩, hsupplied⟩, hkept hstr⟩
    · cases hnull
  · rintro ⟨⟨⟨last', hlast', hstr⟩, hsupplied⟩, hraw⟩
    cases hlast.symm.trans hlast'
    rcases htyped with ⟨-, -, hkept⟩ | ⟨hno, -⟩
    · exact Option.some.inj ((hkept hstr).symm.trans hraw)
    · exact absurd hsupplied hno

/-- What is sent is the named resource exactly if the argument is spelled the way the permission does. -/
theorem Accepted.spells_iff (casing : Casing) (h : Accepted engine coerce schema reg raw a)
    (hcoerce : Coercion coerce) (hresource : schema.resourcePermissionArg = some name) :
    Spells (namedResource casing.lower name ((Json.field? name a.args).getD .null))
      ((Json.field? name a.args).getD .null) ↔ SpelledAsGranted casing.lower schema name raw := by
  have htext := h.text_iff hcoerce hresource
  constructor
  · intro hspells
    obtain ⟨s, hs⟩ := eq_str_of_spells hspells
    obtain ⟨hsupplied, hraw⟩ := (htext s).mp hs
    rw [hs, spells_namedResource_iff] at hspells
    refine ⟨hsupplied, fun hname t ht => hspells hname t ?_⟩
    exact Json.str.inj (Option.some.inj (hraw.symm.trans ht))
  · rintro ⟨hsupplied, hlower⟩
    obtain ⟨s, hraw, hvalue, -⟩ := (resourceFromText_iff hcoerce engine hresource h.valid).mpr hsupplied
    rw [hvalue, Option.getD_some, spells_namedResource_iff]
    rintro hname t rfl
    exact hlower hname t hraw

theorem Accepted.sendsGranted_iff (casing : Casing) (h : Accepted engine coerce schema reg raw a)
    (hcoerce : Coercion coerce) (hlower : engine.lower = casing.lower)
    (hresource : schema.resourcePermissionArg = some name) {base : String}
    (hbase : schema.requiredPermission = some base)
    (hkey : schema.payload.lookup key = some (.arg name)) (hconf : engine.configured = true) :
    SendsGranted reg (base ++ ":" ++ name ++ ":") key a ↔
      SpelledAsGranted casing.lower schema name raw := by
  rw [← h.spells_iff casing hcoerce hresource, ← hlower]
  have hstamped := h.stamped hresource hbase
  constructor
  · rintro ⟨⟨resource, hpermission, hsends⟩, -⟩
    rw [hstamped, Option.some.injEq, String.append_right_inj] at hpermission
    rw [hpermission]
    exact (h.sendsOnly_iff hcoerce hkey hconf).mp hsends
  · intro hspells
    have hsends : SendsOnly reg a key _ := (h.sendsOnly_iff hcoerce hkey hconf).mpr hspells
    refine ⟨⟨_, hstamped, hsends⟩, ?_⟩
    rintro g hwildcard hsuffix ⟨required, hrequired, hsatisfied⟩
    cases hstamped.symm.trans hrequired
    exact ⟨_, (satisfied_exact_iff hwildcard hsuffix).mp hsatisfied, hsends⟩

/-- A tool that is not configured sends nothing. -/
theorem Accepted.sendsGranted_of_not_configured (h : Accepted engine coerce schema reg raw a)
    (hresource : schema.resourcePermissionArg = some name) {base : String}
    (hbase : schema.requiredPermission = some base) (hconf : engine.configured = false) :
    (∀ names, SendsOnly reg a key names) ∧ SendsGranted reg (base ++ ":" ++ name ++ ":") key a := by
  have hnone : ∀ names, SendsOnly reg a key names := by
    intro names principal w
    obtain ⟨host, hget⟩ := h.tool
    refine ⟨[], ?_, by simp⟩
    rw [List.append_nil, ToolRegistry.execute]
    split
    next => rfl
    next tool args hresolve =>
      obtain ⟨hgot, -⟩ := ToolRegistry.resolve_eq_ok.mp hresolve
      cases hget.symm.trans hgot
      have hrun : (engine.schemaTool schema host).run args principal w =
          (.error ⟨"RuntimeError", schema.name ++ " not configured"⟩, w) := by
        simp [AdapterEngine.schemaTool, AdapterEngine.runTool, hconf]
      rw [hrun]
  have hstamped := h.stamped hresource hbase
  refine ⟨hnone, ⟨_, hstamped, hnone _⟩, ?_⟩
  rintro g hwildcard hsuffix ⟨required, hrequired, hsatisfied⟩
  cases hstamped.symm.trans hrequired
  exact ⟨_, (satisfied_exact_iff hwildcard hsuffix).mp hsatisfied, hnone _⟩

end accepted

end tool

theorem accepted_of_propose {engine : AdapterEngine} {coerce : String → Json → Except String Json}
    {schema : ToolSchema} {host : String} {reg : ToolRegistry Outside} {actionId rationale : String}
    {raw : Args} {a : ProposedAction} (hmodel : engine.argsModel = buildArgsModel coerce)
    (hreg : reg.get schema.name = .ok (engine.schemaTool schema host))
    (h : reg.propose actionId schema.name raw rationale = .ok a) :
    Accepted engine coerce schema reg raw a := by
  obtain ⟨tool, hget, -, hname, -, hvalid, hpermission⟩ := ToolRegistry.propose_eq_ok h
  cases hreg.symm.trans hget
  refine ⟨hmodel, ⟨host, hname ▸ hreg⟩, ?_, hpermission⟩
  rw [← hmodel]
  exact hvalid

/-- Two accepted actions of a built tool send what is granted for them exactly if the tool is not configured,
    or the argument of both is spelled the way their permissions spell it. -/
theorem schemaTool_sends_granted_iff (casing : Casing) (coerce : String → Json → Except String Json)
    (hcoerce : Coercion coerce) (engine : AdapterEngine) (hmodel : engine.argsModel = buildArgsModel coerce)
    (hlower : engine.lower = casing.lower) (hread : engine.readTierAllowlist = []) (schema : ToolSchema)
    (name key : String) (hresource : schema.resourcePermissionArg = some name)
    (hkey : schema.payload.lookup key = some (.arg name)) (tool : BaseTool Outside)
    (hbuilt : engine.buildTool schema = .ok tool) (reg : ToolRegistry Outside)
    (hreg : reg.get schema.name = .ok tool) (i j : String) (raw raw' : Args) (why why' : String)
    (a b : ProposedAction) (ha : reg.propose i schema.name raw why = .ok a)
    (hb : reg.propose j schema.name raw' why' = .ok b) :
    BothSendGranted reg (schema.requiredPermission.getD "" ++ ":" ++ name ++ ":") key a b ↔
      (engine.configured = true → SpelledAsGranted casing.lower schema name raw ∧
        SpelledAsGranted casing.lower schema name raw') := by
  obtain ⟨base, host, hbase, rfl⟩ := exists_base_of_buildTool hread hbuilt
  have haccepted := accepted_of_propose hmodel hreg ha
  have haccepted' := accepted_of_propose hmodel hreg hb
  rw [hbase, Option.getD_some]
  cases hconf : engine.configured with
  | false =>
    obtain ⟨hnone, hsends⟩ : (∀ names, SendsOnly reg a key names) ∧ _ :=
      haccepted.sendsGranted_of_not_configured hresource hbase hconf
    obtain ⟨hnone', hsends'⟩ : (∀ names, SendsOnly reg b key names) ∧ _ :=
      haccepted'.sendsGranted_of_not_configured hresource hbase hconf
    exact iff_of_true ⟨hsends, hsends', fun _ => ⟨"", hnone _, hnone' _⟩⟩ (by simp)
  | true =>
    rw [← haccepted.sendsGranted_iff casing hcoerce hlower hresource hbase hkey hconf,
      ← haccepted'.sendsGranted_iff casing hcoerce hlower hresource hbase hkey hconf]
    constructor
    · exact fun h _ => ⟨h.first, h.second⟩
    · intro h
      obtain ⟨hfirst, hsecond⟩ := h rfl
      refine ⟨hfirst, hsecond, fun hsame => ?_⟩
      obtain ⟨resource, hpermission, hsends⟩ := hfirst.stamped
      obtain ⟨resource', hpermission', hsends'⟩ := hsecond.stamped
      rw [hpermission, hpermission', Option.some.injEq, String.append_right_inj] at hsame
      exact ⟨resource, hsends, hsame ▸ hsends'⟩

/-! ### One channel in two spellings -/

/-- The packaged schema of the tool that deletes a message. -/
def slackDeleteMessageSchema : ToolSchema where
  name := "slack_delete_message"
  riskTier := .delete
  requiredPermission := some "tool:slack:delete_message"
  resourcePermissionArg := some "channel"
  provider := .slack
  requiredScopes := ["chat:write"]
  endpoint := "https://slack.com/api/chat.delete"
  args := [{ name := "channel", minLength := some 1 }, { name := "ts", minLength := some 1 }]
  payload := [("channel", .arg "channel"), ("ts", .arg "ts")]
  response := [("channel", .path "channel"), ("ts", .path "ts"), ("provider", .value (.str "slack"))]
  name_ne := by decide
  endpoint_ne := by decide
  args_safe := by decide
  payload_declared := by
    intro key name h
    simp only [List.mem_cons, Prod.mk.injEq, PayloadField.arg.injEq, List.not_mem_nil, or_false] at h
    rcases h with ⟨-, rfl⟩ | ⟨-, rfl⟩ <;> simp
  resource_declared := by simp

def deleteRegistry : ToolRegistry Outside :=
  soleRegistry (noteEngine.schemaTool slackDeleteMessageSchema "slack.com")

/-- A deletion in a channel. -/
def deleteArgs (channel : String) : Args := [("channel", .str channel), ("ts", .str "123.45")]

theorem schemaTool_sends_granted_general : ∃ a,
    deleteRegistry.propose "a1" "slack_delete_message" (deleteArgs "#general") = .ok a ∧
      BothSendGranted deleteRegistry "tool:slack:delete_message:channel:" "channel" a a := by
  refine ⟨_, rfl, ?_⟩
  refine (schemaTool_sends_granted_iff asciiCasing plainCoerce coercion_plainCoerce noteEngine rfl rfl rfl
    slackDeleteMessageSchema "channel" "channel" rfl rfl _ rfl deleteRegistry rfl "a1" "a1"
    (deleteArgs "#general") (deleteArgs "#general") "" "" _ _ rfl rfl).mpr fun _ => ?_
  have hspelled : SpelledAsGranted asciiCasing.lower slackDeleteMessageSchema "channel"
      (deleteArgs "#general") := by
    refine ⟨⟨⟨{ name := "channel", minLength := some 1 }, rfl, rfl⟩, .str "#general", rfl, by simp⟩, ?_⟩
    intro _ s hs
    have htail : "#" ++ "general" = "#" ++ s := Json.str.inj (Option.some.inj hs)
    rw [← (String.append_right_inj _).mp htail]
    decide
  exact ⟨hspelled, hspelled⟩

/-- Two deletions with one permission: it names `general`, and `#General` is sent for the first. -/
theorem not_sends_granted_capital : ∃ a b,
    deleteRegistry.propose "a1" "slack_delete_message" (deleteArgs "#General") = .ok a ∧
      deleteRegistry.propose "a2" "slack_delete_message" (deleteArgs "#general") = .ok b ∧
      a.requiredPermission = some "tool:slack:delete_message:channel:general" ∧
      a.requiredPermission = b.requiredPermission ∧
      ¬BothSendGranted deleteRegistry "tool:slack:delete_message:channel:" "channel" a b := by
  refine ⟨_, _, rfl, rfl, by decide, ?_, fun h => ?_⟩
  · exact Eq.trans (b := some "tool:slack:delete_message:channel:general") (by decide) (by decide)
  have hreg : deleteRegistry.get slackDeleteMessageSchema.name =
    .ok (noteEngine.schemaTool slackDeleteMessageSchema "slack.com") := rfl
  have hpropose : deleteRegistry.propose "a1" slackDeleteMessageSchema.name (deleteArgs "#General") =
    .ok _ := rfl
  have haccepted : Accepted noteEngine plainCoerce slackDeleteMessageSchema deleteRegistry
    (deleteArgs "#General") _ := accepted_of_propose rfl hreg hpropose
  have hbase : slackDeleteMessageSchema.requiredPermission = some "tool:slack:delete_message" := rfl
  have hkey : slackDeleteMessageSchema.payload.lookup "channel" = some (.arg "channel") := rfl
  obtain ⟨-, hlower⟩ := (haccepted.sendsGranted_iff asciiCasing coercion_plainCoerce rfl rfl hbase hkey
    rfl).mp h.first
  have hhash : "#General" = "#" ++ "General" := by decide
  have hfield : Json.field? "channel" (deleteArgs "#General") = some (.str ("#" ++ "General")) := by
    rw [← hhash]
    rfl
  exact absurd (hlower rfl "General" hfield) (by decide)

end Atlas
