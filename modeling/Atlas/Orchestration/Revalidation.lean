import Atlas.Orchestration.Nodes
import Atlas.SchemaArgs
import Atlas.StandardTools

/-! A proposed action is checked three times: when it is proposed, when the planner surfaces it and when the
    executor runs it. The later checks validate the arguments the action stores, which are the dump of
    the model that validated them first, and compare the permission with the stamped one. They agree
    with the proposal exactly where the model takes its own dump unchanged. Every model does, but one:
    the channel of `slack_post` is measured before it is stripped, so a channel of white space only is
    accepted, stored as the empty text, and refused from then on. -/

namespace Atlas

open Text

/-! ### Values a field made -/

section fields
variable {coerce after : String → Json → Except String Json} {field : FieldDef}

/-- A string field takes what it made of any value unchanged. -/
theorem validate_fixed_of_str (htype : field.type = "str") {v : Option Json} {w : Json}
    (h : field.validate coerce v = .ok w) : field.validate coerce (some w) = .ok w := by
  cases v with
  | none =>
    obtain ⟨hrequired, rfl⟩ := validate_none_eq_ok.mp h
    exact validate_null hrequired
  | some v =>
    cases v with
    | str s =>
      simp only [FieldDef.validate, htype] at h
      obtain ⟨-, -, rfl⟩ := checkLength_eq_ok.mp h
      simpa only [FieldDef.validate, htype] using h
    | null =>
      cases hrequired : field.required with
      | true => simp [FieldDef.validate, htype, hrequired] at h
      | false =>
        rw [validate_null hrequired] at h
        cases h
        exact validate_null hrequired
    | _ => simp [FieldDef.validate, htype] at h

theorem validate_fixed (hcoerce : Coercion coerce) (htype : field.type ∈ ["str", "int", "bool"])
    {v : Option Json} {w : Json} (h : field.validate coerce v = .ok w) :
    field.validate coerce (some w) = .ok w := by
  by_cases hstr : field.type = "str"
  · exact validate_fixed_of_str hstr h
  cases v with
  | none =>
    obtain ⟨hrequired, rfl⟩ := validate_none_eq_ok.mp h
    exact validate_null hrequired
  | some v =>
    rcases validate_coerced hstr v with ⟨rfl, hrequired⟩ | hv
    · rw [validate_null hrequired] at h
      cases h
      exact validate_null hrequired
    · -- what the coercion reads it reads as itself
      rw [hv] at h
      obtain hint | hbool : field.type = "int" ∨ field.type = "bool" := by
        simpa [hstr] using htype
      · rw [hint] at h
        obtain ⟨n, rfl⟩ := hcoerce.int_ok h
        have hn : field.validate coerce (some (.int n)) = _ :=
          Or.resolve_left (validate_coerced hstr (.int n)) (by simp)
        rw [hn, hint]
        exact hcoerce.int_self n
      · rw [hbool] at h
        obtain ⟨b, rfl⟩ := hcoerce.bool_ok h
        have hb : field.validate coerce (some (.bool b)) = _ :=
          Or.resolve_left (validate_coerced hstr (.bool b)) (by simp)
        rw [hb, hbool]
        exact hcoerce.bool_self b

/-- With a validator that rewrites nothing. -/
theorem check_fixed
    (hfixed : ∀ {v w}, field.validate coerce v = .ok w → field.validate coerce (some w) = .ok w)
    (hafter : ∀ {v w}, after field.name v = .ok w → w = v) {v : Option Json} {w : Json}
    (h : field.check coerce after v = .ok w) : field.check coerce after (some w) = .ok w := by
  obtain ⟨declared, hdeclared, hw⟩ := check_eq_ok.mp h
  obtain rfl := hafter hw
  exact check_eq_ok.mpr ⟨w, hfixed hdeclared, hw⟩

end fields

/-- A model whose validators rewrite nothing takes its own dump, with or without the defaults. -/
theorem revalidates {coerce after : String → Json → Except String Json} {title : String}
    {fields : List FieldDef} {args values : Args} (defaults : Args) (hnodup : (fields.map (·.name)).Nodup)
    (hfixed : ∀ field ∈ fields, ∀ {v w}, field.validate coerce v = .ok w →
      field.validate coerce (some w) = .ok w)
    (hafter : ∀ {name v w}, after name v = .ok w → w = v)
    (h : modelValidateAfter coerce after title fields args = .ok values) :
    modelValidateAfter coerce after title fields (values ++ defaults) = .ok values :=
  (revalidates_iff defaults hnodup h).mpr fun field hfield _ => check_fixed (hfixed field hfield) hafter

/-! ### The channel of a post -/

section channel
variable {casing : Casing} {coerce : String → Json → Except String Json}

/-- A `#name` without white space at its ends is put in lower case. -/
theorem rejectNonChannelTargets_hash {name : String} (h : strip ("#" ++ name) = "#" ++ name) :
    rejectNonChannelTargets casing ("#" ++ name) = .ok (.str ("#" ++ casing.lower name)) := by
  have hhead : takeChars 1 ("#" ++ name) = "#" := by
    rw [takeChars, String.toList_append]; rfl
  have hnot : hasPrefix "@" ("#" ++ name) = false := by
    rw [hasPrefix, String.toList_append]; rfl
  have hrest : dropChars 1 ("#" ++ name) = name := dropChars_append "#" _
  simp only [rejectNonChannelTargets, h, hhead, hnot, hrest, casing.upper_hash, hasPrefix_append, if_true]
  simp

/-- What the validator accepts it rewrites to a text that it takes unchanged. The rewritten text is empty
    where nothing but white space was given. -/
theorem rejectNonChannelTargets_eq_ok {value : String} {v : Json}
    (h : rejectNonChannelTargets casing value = .ok v) :
    ∃ channel, v = .str channel ∧ rejectNonChannelTargets casing channel = .ok (.str channel) ∧
      (channel = "" ↔ strip value = "") := by
  simp only [rejectNonChannelTargets, Fallible.ite_error_eq_ok] at h
  obtain ⟨hmention, huser, h⟩ := h
  split at h
  next hname =>
    cases h
    obtain ⟨name, hstripped⟩ := hasPrefix_iff.mp hname
    have hdrop : dropChars 1 (strip value) = name := by rw [hstripped]; exact dropChars_append "#" name
    have hlower : "#" ++ casing.lower name = casing.lower (strip value) := by
      rw [hstripped, casing.lower_hash]
    refine ⟨"#" ++ casing.lower name, by rw [hdrop], ?_, ?_⟩
    · -- the name in lower case has no white space at its ends, and lower case it keeps
      rw [rejectNonChannelTargets_hash, casing.lower_lower]
      rw [hlower, casing.strip_lower, strip_strip]
    · rw [hstripped]
      simp
  next hname =>
    cases h
    refine ⟨strip value, rfl, ?_, Iff.rfl⟩
    simp only [rejectNonChannelTargets, strip_strip, if_neg hmention, if_neg huser, if_neg hname]

theorem channelValidator_channel (value : String) :
    channelValidator casing "channel" (.str value) = rejectNonChannelTargets casing value := by
  simp only [channelValidator]

theorem channelValidator_text {v w : Json} (h : channelValidator casing "text" v = .ok w) : w = v := by
  cases v <;> (cases h; rfl)

/-- The channel of a post that is accepted was given as text and is stored as the validator rewrote it. -/
theorem channel_of_slackPostArgs {args values : Args} (h : slackPostArgs casing coerce args = .ok values) :
    ∃ value channel, Json.field? "channel" args = some (.str value) ∧
      FieldDef.check coerce (channelValidator casing) { name := "channel", minLength := some 1 }
        (Json.field? "channel" args) = .ok (.str channel) ∧
      rejectNonChannelTargets casing value = .ok (.str channel) ∧
      Json.field? "channel" values = some (.str channel) := by
  obtain ⟨stored, hstored, hcheck⟩ := field?_of_valid (by decide) h List.mem_cons_self
  obtain ⟨declared, hdeclared, hw⟩ := check_eq_ok.mp hcheck
  obtain ⟨value, hvalue, hlength⟩ := (validate_str_eq_ok rfl rfl).mp hdeclared
  obtain ⟨-, -, rfl⟩ := checkLength_eq_ok.mp hlength
  rw [channelValidator_channel] at hw
  obtain ⟨channel, rfl, -⟩ := rejectNonChannelTargets_eq_ok hw
  exact ⟨value, channel, hvalue, hcheck, hw, hstored⟩

/-- A channel of white space only. -/
def BlankChannel (args : Args) : Prop :=
  ∃ channel, Json.field? "channel" args = some (.str channel) ∧ strip channel = ""

/-- The model of a post takes its own dump, unless the channel was blank. -/
theorem slackPostArgs_revalidates_iff {args values : Args} (h : slackPostArgs casing coerce args = .ok values) :
    slackPostArgs casing coerce values = .ok values ↔ ¬BlankChannel args := by
  have hiff := revalidates_iff [] (by decide) h
  rw [List.append_nil] at hiff
  refine hiff.trans ?_
  obtain ⟨value, channel, hgiven, hvalue, hw, -⟩ := channel_of_slackPostArgs h
  obtain ⟨_, heq, hagain, hempty⟩ := rejectNonChannelTargets_eq_ok hw
  cases heq
  have hblank : BlankChannel args ↔ channel = "" := by
    rw [hempty, BlankChannel, hgiven]
    simp
  rw [hblank]
  simp only [slackPostFields, List.forall_mem_cons, List.not_mem_nil, false_imp_iff, implies_true, and_true]
  constructor
  · rintro ⟨hchannel, -⟩ rfl
    obtain ⟨_, hmeasured, -⟩ := check_eq_ok.mp (hchannel _ hvalue)
    obtain ⟨_, hsome, hlength⟩ := (validate_str_eq_ok rfl rfl).mp hmeasured
    cases hsome
    obtain ⟨hlength, -⟩ := checkLength_eq_ok.mp hlength
    simp at hlength
  · intro hne
    constructor
    · intro v hv
      rw [hvalue] at hv
      cases hv
      refine check_eq_ok.mpr ⟨.str channel, (validate_str_eq_ok rfl rfl).mpr ⟨channel, rfl, ?_⟩, hagain⟩
      refine checkLength_eq_ok.mpr ⟨?_, rfl, rfl⟩
      exact one_le_length_iff.mpr hne
    · exact fun v hv => check_fixed (validate_fixed_of_str rfl) channelValidator_text hv

end channel

/-! ### Tools -/

theorem requireWellFormedAddress_eq_ok {name : String} {v w : Json}
    (h : requireWellFormedAddress name v = .ok w) : w = v := by
  unfold requireWellFormedAddress at h
  split at h
  next value =>
    rw [validatedRecipient] at h
    split at h
    · exact (Except.ok.inj h).symm
    · cases h
  next => exact (Except.ok.inj h).symm

section tools
variable {casing : Casing} {coerce : String → Json → Except String Json}

/-- Every standard tool takes the arguments it validated, `slack_post` those whose channel was not blank. -/
theorem standardTools_revalidate_iff {backends : Backends} {tool : BaseTool ToolWorld}
    (htool : tool ∈ standardTools casing coerce backends) {args values : Args}
    (h : tool.argsSchema args = .ok values) :
    tool.argsSchema values = .ok values ↔ ¬(tool.name = "slack_post" ∧ BlankChannel args) := by
  have hplain : ∀ {title fields args} (defaults : Args), (fields.map FieldDef.name).Nodup →
      (∀ field ∈ fields, field.type = "str") → modelValidate coerce title fields args = .ok values →
      modelValidate coerce title fields (values ++ defaults) = .ok values := by
    intro title fields args defaults hnodup htype hvalid
    rw [modelValidate_eq_after] at hvalid ⊢
    exact revalidates defaults hnodup (fun field hfield => validate_fixed_of_str (htype field hfield))
      (fun h => (Except.ok.inj h).symm) hvalid
  have hemail : ∀ {title}, emailArgs coerce title args = .ok values →
      emailArgs coerce title values = .ok values := by
    intro title hvalid
    refine revalidates _ (by decide) (fun field hfield => validate_fixed_of_str ?_) ?_ hvalid
    · simp only [emailFields, List.mem_cons, List.not_mem_nil, or_false] at hfield
      rcases hfield with rfl | rfl | rfl <;> rfl
    · exact requireWellFormedAddress_eq_ok
  simp only [standardTools, List.mem_cons, List.not_mem_nil, or_false] at htool
  rcases htool with rfl | rfl | rfl | rfl | rfl | rfl
  · have hsearch := hplain [] (by decide) (by simp) h
    rw [List.append_nil] at hsearch
    exact iff_of_true hsearch (by simp [searchTool])
  · exact iff_of_true (hemail h) (by simp [sendEmailTool])
  · exact (slackPostArgs_revalidates_iff h).trans (not_congr (by simp [slackPostTool]))
  · exact iff_of_true (hemail h) (by simp [gmailSendTool])
  · exact iff_of_true (hplain _ (by decide) (by simp [calendarFields]) h) (by simp [calendarCreateEventTool])
  · have hpost := hplain [] (by decide) (by simp) h
    rw [List.append_nil] at hpost
    exact iff_of_true hpost (by simp [BaseTool.within, slackPostAsUserTool])

/-- So does every tool an engine builds. -/
theorem buildArgsModel_revalidates (hcoerce : Coercion coerce) {schema : ToolSchema} {args values : Args}
    (h : buildArgsModel coerce schema args = .ok values) : buildArgsModel coerce schema values = .ok values := by
  rw [buildArgsModel, modelValidate_eq_after] at h ⊢
  have hagain := revalidates [] (nodup_names_fieldDefs schema)
    (fun field hfield => validate_fixed hcoerce (type_mem_of_mem_fieldDefs hfield))
    (fun h => (Except.ok.inj h).symm) h
  rwa [List.append_nil] at hagain

end tools

/-! ### Proposed actions -/

section actions
variable {σ : Type}

/-- The checks of a proposed action agree with its proposal: its arguments are validated to themselves and
    its permission is derived as it was stamped, so whether the planner surfaces it and whether the
    executor runs it depend on the policy and the approval alone. -/
structure Reproduced (reg : ToolRegistry σ) (a : ProposedAction) : Prop where
  resolves : ∃ tool, reg.resolve a = .ok (tool, a.args)
  permission : resolvePermission reg a = .ok a.requiredPermission
  planner : ∀ principal policy audit, plannerAction reg principal policy a audit =
    if policy.can (some principal) a.requiredPermission then (some a, audit.proposed a)
    else (none, (audit.proposed a).denied a principal.userId (missingPermission a.requiredPermission) none)
  executor : ∀ principal approved policy (st : RunState σ), ∃ tool, reg.get a.tool = .ok tool ∧
    executorAction reg principal approved policy a st =
      let context := some (tool.auditContext principal)
      if !policy.can (some principal) a.requiredPermission then
        (none, st.withAudit (st.audit.denied a principal.userId (missingPermission a.requiredPermission)
          context))
      else if requiresApproval (.tier a.riskTier) && !approved.contains a.actionId then
        (none, st.withAudit (st.audit.skipped a "not approved" context))
      else
        let (result, st) := executeGuarded reg a principal context st
        (some result, st)

/-- All of it comes down to one thing: the tool takes the stored arguments as they are. -/
theorem reproduced_iff {reg : ToolRegistry σ} {actionId name rationale : String} {args : Args}
    {a : ProposedAction} {tool : BaseTool σ} (hget : reg.get name = .ok tool)
    (h : reg.propose actionId name args rationale = .ok a) :
    Reproduced reg a ↔ tool.argsSchema a.args = .ok a.args := by
  obtain ⟨t, ht, -, rfl, -, hvalid, hpermission⟩ := ToolRegistry.propose_eq_ok h
  rw [hget] at ht
  cases ht
  constructor
  · rintro ⟨⟨t, ht⟩, -, -, -⟩
    obtain ⟨hgot, hagain⟩ := ToolRegistry.resolve_eq_ok.mp ht
    rw [hget] at hgot
    cases hgot
    exact hagain
  · intro hagain
    have hrequired : requiredPermissionFor a tool = .ok a.requiredPermission := by
      rw [requiredPermissionFor, hagain, Fallible.ok_bind, hpermission, Fallible.ok_bind]
      cases hstamped : a.requiredPermission with
      | none => rfl
      | some stamped => exact if_pos rfl
    have hresolved : resolvePermission reg a = .ok a.requiredPermission := by
      rw [resolvePermission, hget, Fallible.ok_bind, hrequired]
    refine ⟨⟨tool, ToolRegistry.resolve_eq_ok.mpr ⟨hget, hagain⟩⟩, hresolved, ?_, ?_⟩
    · intro principal policy audit
      simp only [plannerAction, hresolved]
      cases policy.can (some principal) a.requiredPermission <;> rfl
    · intro principal approved policy st
      refine ⟨tool, hget, ?_⟩
      simp only [executorAction, hget, hrequired]

/-- An action of a standard tool, and of a tool an engine builds from a schema, is checked as it was
    proposed; a post to a blank channel is not. -/
theorem propose_reproduced_iff (casing : Casing) (coerce : String → Json → Except String Json)
    (reg : ToolRegistry σ) (actionId name rationale : String) (args : Args) (a : ProposedAction)
    (h : reg.propose actionId name args rationale = .ok a) :
    (∀ (backends : Backends) (view : σ → ToolWorld) (update : σ → ToolWorld → σ),
      ∀ tool ∈ standardTools casing coerce backends, reg.get name = .ok (tool.within view update) →
        (Reproduced reg a ↔ ¬(tool.name = "slack_post" ∧ BlankChannel args))) ∧
    (Coercion coerce → ∀ (engine : AdapterEngine) (schema : ToolSchema) (tool : BaseTool Outside)
      (view : σ → Outside) (update : σ → Outside → σ), engine.argsModel = buildArgsModel coerce →
      engine.buildTool schema = .ok tool → reg.get name = .ok (tool.within view update) →
        Reproduced reg a) := by
  obtain ⟨registered, hregistered, -, -, -, hvalid, -⟩ := ToolRegistry.propose_eq_ok h
  constructor
  · intro backends view update tool htool hget
    rw [hget] at hregistered
    cases hregistered
    exact (reproduced_iff hget h).trans (standardTools_revalidate_iff htool hvalid)
  · intro hcoerce engine schema tool view update hmodel hbuild hget
    rw [hget] at hregistered
    cases hregistered
    refine (reproduced_iff hget h).mpr ?_
    have hargs : tool.argsSchema = buildArgsModel coerce schema := by
      simp only [AdapterEngine.buildTool, Fallible.bind_eq_ok, Fallible.pure_eq_ok] at hbuild
      obtain ⟨-, -, url, -, rfl⟩ := hbuild
      exact congrFun hmodel schema
    change tool.argsSchema a.args = .ok a.args
    replace hvalid : tool.argsSchema args = .ok a.args := hvalid
    rw [hargs] at hvalid ⊢
    exact buildArgsModel_revalidates hcoerce hvalid

end actions

/-! ### Two posts -/

/-- A registry that holds the posting tool only. -/
def postRegistry : ToolRegistry ToolWorld :=
  soleRegistry ((slackPostTool asciiCasing stringsOnly {}).within id fun _ w => w)

/-- A post as it is stored once it was proposed. -/
def postAction (channel permission : String) : ProposedAction where
  actionId := "a1"
  tool := "slack_post"
  args := [("channel", .str channel), ("text", .str "hi")]
  riskTier := .send
  requiredPermission := some permission

theorem propose_reproduced_general :
    Reproduced postRegistry (postAction "#general" "tool:slack:post:channel:general") := by
  have hpropose : postRegistry.propose "a1" "slack_post"
      [("channel", .str " #General "), ("text", .str "hi")] "" =
        .ok (postAction "#general" "tool:slack:post:channel:general") := rfl
  have hiff := (propose_reproduced_iff asciiCasing stringsOnly _ _ _ _ _ _ hpropose).1 {} id
    (fun _ w => w) (slackPostTool asciiCasing stringsOnly {}) slackPostTool_mem rfl
  refine hiff.mpr ?_
  rintro ⟨-, channel, hchannel, hblank⟩
  cases hchannel
  exact absurd hblank (by decide)

/-- A channel of one blank is accepted, stored as the empty text, and cannot be resolved afterwards. -/
theorem propose_not_reproduced : ¬∀ (casing : Casing) (coerce : String → Json → Except String Json)
    (backends : Backends), ∀ tool ∈ standardTools casing coerce backends, ∀ (reg : ToolRegistry ToolWorld)
    (actionId rationale : String) (args : Args) (a : ProposedAction), reg.get tool.name = .ok tool →
    reg.propose actionId tool.name args rationale = .ok a → Reproduced reg a := by
  intro h
  have hreproduced := h asciiCasing stringsOnly {} (slackPostTool asciiCasing stringsOnly {})
    slackPostTool_mem postRegistry "a1" "" [("channel", .str " "), ("text", .str "hi")]
    (postAction "" "tool:slack:post:channel:") rfl rfl
  have hdenied : resolvePermission postRegistry (postAction "" "tool:slack:post:channel:") =
    .error ⟨"ValidationError", "_SlackPostArgs: string_too_short"⟩ := rfl
  have hpermission := hreproduced.permission
  rw [hdenied] at hpermission
  cases hpermission

end Atlas
