import Atlas.EgressRoutes
import Atlas.Interface.Service
import Atlas.Wiring

/-! What the wired service posts to providers on behalf of its users. A schema says where a tool posts and
    what, but not that it may: the engine builds no tool that runs by itself or needs no permission. So every
    post has a call behind it that its user approved and that was permitted twice, and it carries that user's
    own token to the endpoint of a loaded schema, whatever the model asked for (`posts_governed`). -/

namespace Atlas

open LabelledRun Text

/-! ### The post of a call -/

/-- The post that a call of a tool has made. -/
inductive PostMade (rt : BuildRuntime) (s : SettingsData) (c : Call ToolWorld) (x : Exchange) : Prop where
  | schema (schema : ToolSchema) (args : Args) (active : schema ∈ activeSchemas rt s)
      (tool : c.action.tool = schema.name)
      (allowed : assertHostAllowed rt.parseUrl rt.casing.lower schema.endpoint
        (s.adapterEgressAllowlistHosts rt.casing.lower) = .ok ())
      (valid : buildArgsModel rt.coerce schema c.action.args = .ok args)
      (url : x.url = schema.endpoint) (payload : x.payload = buildPayload schema args)
      (token : c.world.getAccessToken c.principal schema.provider schema.requiredScopes = .ok x.accessToken)
  | asUser (channel text : String) (tool : c.action.tool = "slack_post_as_user")
      (valid : slackPostAsUserArgs rt.coerce c.action.args =
        .ok [("channel", .str channel), ("text", .str text)])
      (url : x.url = slackPostUrl)
      (payload : x.payload = [("channel", .str channel), ("text", .str text), ("unfurl_links", .bool false),
        ("unfurl_media", .bool false)])
      (token : c.world.getAccessToken c.principal .slack [slackUserChatWrite] = .ok x.accessToken)

/-- A tool that a user has to approve, and that needs a permission. -/
structure Gated (tool : BaseTool ToolWorld) : Prop where
  tier : tool.riskTier.isAutoSafe = false
  permission : ∃ base, tool.requiredPermission = some base ∧ base ≠ ""

section tools
variable {rt : BuildRuntime} {s : SettingsData} {p : Providers} {reg : ToolRegistry ToolWorld}

/-- What the engine has checked of a schema whose tool it built. -/
theorem secure_of_buildTool {engine : AdapterEngine} {schema : ToolSchema} {tool : BaseTool Outside}
    (hread : engine.readTierAllowlist = []) (h : engine.buildTool schema = .ok tool) :
    Gated (tool.ofSchema schema) ∧
      assertHostAllowed engine.parseUrl engine.lower schema.endpoint engine.allowlist = .ok () := by
  have hallowed := assertHostAllowed_of_buildTool h
  obtain ⟨host, rfl⟩ := buildTool_eq_ok h
  simp only [AdapterEngine.buildTool, Fallible.bind_eq_ok] at h
  obtain ⟨⟨⟩, hsecurity, -⟩ := h
  unfold AdapterEngine.validateSecurity at hsecurity
  by_cases htier : schema.riskTier = .read
  · rw [if_pos ⟨htier, by simp [hread]⟩] at hsecurity
    cases hsecurity
  · rw [if_neg (fun h => htier h.1)] at hsecurity
    by_cases hbase : schema.requiredPermission.getD "" = ""
    · rw [if_pos ⟨htier, hbase⟩] at hsecurity
      cases hsecurity
    · refine ⟨⟨beq_false_of_ne htier, ?_⟩, hallowed⟩
      cases hpermission : schema.requiredPermission with
      | none => exact absurd (by rw [hpermission]; rfl) hbase
      | some base =>
        rw [hpermission] at hbase
        exact ⟨base, hpermission, hbase⟩

/-- A run of a schema tool posts to its endpoint with the token of the caller, or posts nothing. -/
theorem sent_ofSchema {engine : AdapterEngine} {schema : ToolSchema} {host : String} {args : Args}
    {principal : Principal} {w : ToolWorld} {x : Exchange}
    (hx : x ∈ (((engine.schemaTool schema host).ofSchema schema).run args principal w).2.sent) :
    x ∈ w.sent ∨ engine.configured = true ∧ x.url = schema.endpoint ∧ x.payload = buildPayload schema args ∧
      w.getAccessToken principal schema.provider schema.requiredScopes = .ok x.accessToken := by
  simp only [BaseTool.ofSchema, AdapterEngine.schemaTool, AdapterEngine.runTool, SlackWorld.outside] at hx
  split at hx
  next => exact Or.inl hx
  next hconfigured =>
    rw [Bool.not_eq_true, Bool.not_eq_false'] at hconfigured
    split at hx
    next => exact Or.inl hx
    next token htoken =>
      have hpost : ∀ response, (⟨schema.endpoint, buildPayload schema args, token, response⟩ : Exchange) = x →
          engine.configured = true ∧ x.url = schema.endpoint ∧ x.payload = buildPayload schema args ∧
            w.getAccessToken principal schema.provider schema.requiredScopes = .ok x.accessToken := by
        rintro response rfl
        exact ⟨hconfigured, rfl, rfl, htoken⟩
      cases hdelivery : w.delivery with
      | refused e =>
        simp only [hdelivery, postJson] at hx
        exact Or.inl hx
      | lost e =>
        simp only [hdelivery, postJson, List.mem_append, List.mem_singleton] at hx
        exact hx.imp_right fun hx => hpost _ hx.symm
      | answered response =>
        have hsent : x ∈ w.sent ++ [⟨schema.endpoint, buildPayload schema args, token, some response⟩] := by
          simp only [hdelivery, postJson] at hx
          cases hdecoded : decodeJsonResponse response <;> simpa only [hdecoded] using hx
        rw [List.mem_append, List.mem_singleton] at hsent
        exact hsent.imp_right fun hx => hpost _ hx.symm

/-- So does a run of the hand-written tool, to the provider's own URL. -/
theorem sent_asUser {configured : Bool} {channel text : String} {principal : Principal} {w : SlackWorld}
    {x : Exchange} (hx : x ∈ (slackPostAsUserRun configured [("channel", .str channel), ("text", .str text)]
      principal w).2.sent) :
    x ∈ w.sent ∨ configured = true ∧ x.url = slackPostUrl ∧
      x.payload = [("channel", .str channel), ("text", .str text), ("unfurl_links", .bool false),
        ("unfurl_media", .bool false)] ∧
      w.getAccessToken principal .slack [slackUserChatWrite] = .ok x.accessToken := by
  cases configured with
  | false => exact Or.inl hx
  | true =>
    have hchannel : Json.field? "channel" [("channel", .str channel), ("text", .str text)] =
        some (.str channel) := rfl
    have htext : Json.field? "text" [("channel", .str channel), ("text", .str text)] = some (.str text) := rfl
    simp only [slackPostAsUserRun, hchannel, htext, Bool.not_true, Bool.false_eq_true, if_false] at hx
    split at hx
    next => exact Or.inl hx
    next token htoken =>
      simp only [slackUserPost] at hx
      split at hx
      next => exact Or.inl hx
      next =>
        split at hx
        next => exact Or.inl hx
        all_goals
          rw [List.mem_append, List.mem_singleton] at hx
          refine hx.imp_right ?_
          rintro rfl
          exact ⟨rfl, rfl, rfl, htoken⟩

/-- The tools that post, and no others, add to what was sent, each with a gated call of its own. -/
theorem post_of_run (hreg : buildRegistry rt s p = .ok reg) {c : Call ToolWorld} {tool : BaseTool ToolWorld}
    {args : Args} (hresolve : reg.resolve c.action = .ok (tool, args)) {x : Exchange}
    (hx : x ∈ (tool.run args c.principal c.world).2.sent) :
    x ∈ c.world.sent ∨ s.hasDatabase = true ∧ Gated tool ∧ PostMade rt s c x := by
  obtain ⟨hget, hvalid⟩ := ToolRegistry.resolve_eq_ok.mp hresolve
  rcases tool_of_buildRegistry hreg hget with ⟨schema, hactive, hname, made, hmade, rfl⟩ | ⟨-, hstandard⟩
  · obtain ⟨hgated, hallowed⟩ := secure_of_buildTool rfl hmade
    obtain ⟨host, rfl⟩ := buildTool_eq_ok hmade
    refine (sent_ofSchema hx).imp_right ?_
    rintro ⟨hconfigured, hurl, hpayload, htoken⟩
    exact ⟨hconfigured, hgated, .schema schema args hactive hname.symm hallowed hvalid hurl hpayload htoken⟩
  · have hsame : ∀ {w : ToolWorld}, w.sent = c.world.sent → x ∈ w.sent → x ∈ c.world.sent ∨
        s.hasDatabase = true ∧ Gated tool ∧ PostMade rt s c x := fun hw hx => Or.inl (hw ▸ hx)
    have hname := reg.named (ToolRegistry.get_eq_ok_iff.mp hget)
    simp only [standardTools, List.mem_cons, List.not_mem_nil, or_false] at hstandard
    rcases hstandard with rfl | rfl | rfl | rfl | rfl | rfl
    · refine hsame ?_ hx
      simp only [searchTool, searchRun]
      split <;> rfl
    · refine hsame ?_ hx
      simp only [sendEmailTool, sendEmailRun]
      split <;> [split <;> rfl; rfl]
    · refine hsame ?_ hx
      simp only [slackPostTool, slackPostRun]
      split <;> [split <;> rfl; rfl]
    · refine hsame ?_ hx
      simp only [gmailSendTool, gmailSendRun]
      split <;> [split <;> [split <;> rfl; rfl]; rfl]
    · refine hsame ?_ hx
      simp only [calendarCreateEventTool, calendarCreateEventRun]
      split <;> [rfl; split <;> [split <;> rfl; rfl]]
    · obtain ⟨channel, text, rfl, -⟩ := slackPostAsUserArgs_eq_ok hvalid
      refine (sent_asUser hx).imp_right ?_
      rintro ⟨hconfigured, hurl, hpayload, htoken⟩
      have hlive : s.oauthToolsLive s.hasCredentialResolver = true := (Bool.and_eq_true_iff.mp hconfigured).1
      refine ⟨(oauthToolsLive_eq s).symm.trans hlive, ⟨rfl, _, rfl, by decide⟩, ?_⟩
      exact .asUser channel text hname.symm hvalid hurl hpayload htoken

end tools

/-! ### The posts of a loop -/

section loop
variable {rt : BuildRuntime} {s : SettingsData} {p : Providers} {reg : ToolRegistry ToolWorld}

/-- Where a post comes from: it was there before, or one of the calls made it. -/
def PostedBy (rt : BuildRuntime) (s : SettingsData) (reg : ToolRegistry ToolWorld) (before : List Exchange)
    (calls : List (Call ToolWorld)) (x : Exchange) : Prop :=
  x ∈ before ∨ ∃ c ∈ calls, s.hasDatabase = true ∧ PostMade rt s c x ∧
    ∃ tool, reg.get c.action.tool = .ok tool ∧ Gated tool

theorem post_of_execute (hreg : buildRegistry rt s p = .ok reg) (c : Call ToolWorld) {x : Exchange}
    (hx : x ∈ (reg.execute c.action c.principal c.world).2.sent) : PostedBy rt s reg c.world.sent [c] x := by
  rw [ToolRegistry.execute] at hx
  split at hx
  next => exact Or.inl hx
  next tool args hresolve =>
    have hrun : x ∈ (tool.run args c.principal c.world).2.sent := by
      split at hx <;> next heq => rw [heq]; exact hx
    refine (post_of_run hreg hresolve hrun).imp_right ?_
    rintro ⟨hdatabase, hgated, hmade⟩
    have hget := (ToolRegistry.resolve_eq_ok.mp hresolve).1
    exact ⟨c, List.mem_singleton_self c, hdatabase, hmade, tool, hget, hgated⟩

theorem PostedBy.mono {before : List Exchange} {calls calls' : List (Call ToolWorld)} {x : Exchange}
    (h : PostedBy rt s reg before calls x) (hsub : ∀ c ∈ calls, c ∈ calls') :
    PostedBy rt s reg before calls' x := by
  refine h.imp_right ?_
  rintro ⟨c, hc, hmade⟩
  exact ⟨c, hsub c hc, hmade⟩

theorem posted_of_executorAction (hreg : buildRegistry rt s p = .ok reg) {principal : Principal}
    {approved : List String} {policy : PolicyStore} {a : ProposedAction} {st : RunState ToolWorld} {x : Exchange}
    (hx : x ∈ (executorAction reg principal approved policy a st).2.world.sent) :
    PostedBy rt s reg st.world.sent (executorAction reg principal approved policy a st).2.calls x := by
  rcases executorAction_cases reg principal approved policy a st with ⟨-, audit, heq, -⟩ | ⟨-, extra, heq⟩
  · rw [heq] at hx
    exact Or.inl hx
  · rw [heq, executeGuarded] at hx ⊢
    split at hx
    next => exact Or.inl hx
    next hnew =>
      rw [if_neg hnew]
      refine (post_of_execute hreg ⟨a, principal, st.world, (reg.execute a principal st.world).1⟩ hx).mono ?_
      exact fun c hc => List.mem_append_right _ hc

theorem posted_of_executorLoop (hreg : buildRegistry rt s p = .ok reg) {principal : Principal}
    {approved : List String} {policy : ℕ → PolicyStore} {x : Exchange} : ∀ (as : List ProposedAction) (i : ℕ)
    (st : RunState ToolWorld), x ∈ (executorLoop reg principal approved policy i as st).2.world.sent →
    PostedBy rt s reg st.world.sent (executorLoop reg principal approved policy i as st).2.calls x
  | [], _, _, hx => Or.inl hx
  | a :: as, i, st, hx => by
      rw [executorLoop_cons] at hx ⊢
      rcases posted_of_executorLoop hreg as (i + 1) _ hx with hx | hmade
      · exact (posted_of_executorAction hreg hx).mono fun c hc =>
          calls_executorLoop_mono reg principal approved policy as (i + 1) _ hc
      · exact Or.inr hmade

end loop

/-! ### Calls that a user approved -/

/-- The principal is permitted the action by a permission that it does need. -/
def HoldsPermission (reg : ToolRegistry ToolWorld) (principal : Principal) (policy : PolicyStore)
    (action : ProposedAction) : Prop :=
  ∃ tool args permission, reg.resolve action = .ok (tool, args) ∧
    tool.permissionFor args = .ok (some permission) ∧ permission ≠ "" ∧
    policy.can (some principal) (some permission) = true

/-- A call at the end of its chain of steps: its user opened the thread, the planner's check passed, the same
    user approved the action, and the executor's check passed. -/
def ApprovedCall (d : Deployment ToolWorld) (done : List ServiceStep) (threadId message : String)
    (c : Call ToolWorld) : Prop :=
  ∃ checked k caller body rechecked k',
    List.Sublist [.chat threadId message c.principal, .advance threadId checked, .approve caller body,
      .advance threadId rechecked] done ∧
    HoldsPermission d.registry c.principal (checked k) c.action ∧
    HoldsPermission d.registry c.principal (rechecked k') c.action ∧
    body.threadId = threadId ∧ OwnsThread (some c.principal) caller ∧
    (body.approve = some true ∨ body.approve = none ∧ c.action.actionId ∈ body.approvedIds)

theorem holdsPermission_of_permitted {reg : ToolRegistry ToolWorld} {principal : Principal} {policy : PolicyStore}
    {a : ProposedAction} {tool : BaseTool ToolWorld} (h : Permitted reg principal policy a)
    (hget : reg.get a.tool = .ok tool) (hgated : Gated tool) : HoldsPermission reg principal policy a := by
  obtain ⟨tool', args, required, hresolve, hpermission, hcan⟩ := h
  have hsame := (ToolRegistry.resolve_eq_ok.mp hresolve).1
  rw [hget, Except.ok.injEq] at hsame
  subst hsame
  obtain ⟨base, hbase, hnonempty⟩ := hgated.permission
  have hneeds : ∃ permission, required = some permission ∧ permission ≠ "" := by
    rw [BaseTool.permissionFor, hbase] at hpermission
    obtain ⟨resource, -, rfl⟩ := Fallible.map_eq_ok.mp hpermission
    cases resource with
    | none => exact ⟨_, rfl, hnonempty⟩
    | some segment =>
      refine ⟨_, rfl, fun hempty => hnonempty ?_⟩
      have htexts := congrArg String.toList hempty
      simp at htexts
  obtain ⟨permission, rfl, hne⟩ := hneeds
  exact ⟨tool, args, permission, hresolve, hpermission, hne, hcan⟩

/-- A governed call of a gated tool was approved. -/
theorem approved_of_governed {d : Deployment ToolWorld} {done : List ServiceStep} {threadId message : String}
    {c : Call ToolWorld} {tool : BaseTool ToolWorld} (h : GovernedCall d done threadId message c)
    (hget : d.registry.get c.action.tool = .ok tool) (hgated : Gated tool) :
    ApprovedCall d done threadId message c := by
  obtain ⟨-, checked, k, consent, rechecked, k', hsub, hchecked, hrechecked, hconsent⟩ := h
  have hfirst := holdsPermission_of_permitted hchecked hget hgated
  have hsecond := holdsPermission_of_permitted hrechecked hget hgated
  rcases hconsent with ⟨-, safe, hsafe, htier⟩ | ⟨caller, body, rfl, hrest⟩
  · rw [hget, Except.ok.injEq] at hsafe
    rw [← hsafe, hgated.tier] at htier
    cases htier
  · exact ⟨checked, k, caller, body, rechecked, k', hsub, hfirst, hsecond, hrest⟩

/-! ### Whole runs -/

section service
variable {rt : BuildRuntime} {s : SettingsData} {p : Providers} {d : Deployment ToolWorld}

theorem world_of_plannerNode {σ : Type} {planFn : PlanFn σ} {reg : ToolRegistry σ} {kg : KnowledgeGraph}
    {policy : ℕ → PolicyStore} {state state' : AgentState} {st st' : RunState σ}
    (h : plannerNode planFn reg kg policy state st = .ok (state', st')) :
    ∃ request context, st'.world = (planFn request reg context st.world).2 := by
  unfold plannerNode at h
  obtain ⟨context, -, h⟩ := Fallible.bind_eq_ok.mp h
  split at h
  next => cases h
  next proposed world heq =>
    cases h
    exact ⟨_, _, by rw [heq]⟩

theorem world_of_responderNode {σ : Type} (narrator : Option (Narrator σ)) (state : AgentState) (w : σ) :
    (responderNode narrator state w).2 = w ∨ ∃ respond ∈ narrator, ∃ request facts,
      (responderNode narrator state w).2 = (respond request facts w).2 := by
  cases narrator with
  | none => exact Or.inl rfl
  | some respond =>
    refine Or.inr ⟨respond, rfl, lastUserText state.messages, factsBlock
      (summarize state.proposedActions state.actionResults state.rejectedActionIds)
      (collectSources state.actionResults state.kgContext), ?_⟩
    rw [responderNode]
    split <;> next heq => rw [heq]

/-- A step of the service posts nothing but what its calls post. -/
theorem posted_step (hreg : buildRegistry rt s p = .ok d.registry)
    (hplan : ∀ request context w, (d.planFn request d.registry context w).2.sent = w.sent)
    (hnarrator : ∀ respond ∈ d.narrator, ∀ request facts w, (respond request facts w).2.sent = w.sent)
    {before : List Exchange} (t : Service ToolWorld) (step : ServiceStep) (t' : Service ToolWorld)
    (h : ∀ x ∈ t.run.world.sent, PostedBy rt s d.registry before t.run.calls x)
    (hstep : serviceStep d t step = some t') :
    ∀ x ∈ t'.run.world.sent, PostedBy rt s d.registry before t'.run.calls x := by
  cases step with
  | ingest call =>
    cases hstep
    exact h
  | chat threadId message principal =>
    simp only [serviceStep] at hstep
    split at hstep
    next => cases hstep
    next => cases hstep; exact h
  | approve caller body =>
    simp only [serviceStep, Option.bind_eq_bind, Option.bind_eq_some_iff] at hstep
    obtain ⟨thread, -, ⟨thread', audit⟩, -, ht'⟩ := hstep
    cases ht'
    exact h
  | advance threadId policy =>
    simp only [serviceStep, Option.bind_eq_bind, Option.bind_eq_some_iff] at hstep
    obtain ⟨thread, -, ⟨thread', run⟩, hadvance, ht'⟩ := hstep
    cases ht'
    intro x hx
    rcases advance_cases hadvance with ⟨-, state, hnode, -⟩ | ⟨-, rfl, -⟩ | ⟨-, rfl, -⟩
    · obtain ⟨request, context, hworld⟩ := world_of_plannerNode hnode
      obtain ⟨-, -, -, -, hcalls, -, -⟩ := plannerNode_eq_ok hnode
      rw [hworld, hplan] at hx
      rw [hcalls]
      exact h x hx
    · rcases posted_of_executorLoop hreg _ 0 _ hx with hx | hmade
      · exact (h x hx).mono fun c hc => calls_executorLoop_mono d.registry _ _ policy _ 0 _ hc
      · exact Or.inr hmade
    · have hsame : (responderNode d.narrator thread.state t.run.world).2.sent = t.run.world.sent := by
        rcases world_of_responderNode d.narrator thread.state t.run.world with heq | hnarrated
        · rw [heq]
        · obtain ⟨respond, hsome, request, facts, heq⟩ := hnarrated
          rw [heq, hnarrator respond hsome]
      exact h x (hsame ▸ hx)

/-- However the requests of all users interleave, and whatever the model asks for: a post goes to the endpoint
    of a loaded schema, or to the provider's URL of the hand-written tool, with the token of the principal whose
    thread it is, for a call that this principal approved, with permissions that it held both times. -/
theorem posts_governed (rt : BuildRuntime) (s : SettingsData) (p : Providers) (d : Deployment ToolWorld)
    (hreg : buildRegistry rt s p = .ok d.registry) (model : ChatModel ToolWorld)
    (spec : String → BaseTool ToolWorld → ToolSpec) (freshId : ℕ → String) (word : WordChars) (low : Lowering)
    (hasKey : Bool) (hplan : d.planFn = defaultPlanFn model spec freshId word low hasKey)
    (hmodel : ∀ tools messages w, (model tools messages w).2.sent = w.sent)
    (hnarrator : ∀ respond ∈ d.narrator, ∀ request facts w, (respond request facts w).2.sent = w.sent)
    (start : Service ToolWorld) (hthreads : start.threads = Dict.empty) (hcalls : start.run.calls = [])
    (steps : List ServiceStep) (t : Service ToolWorld) (hrun : exec (serviceStep d) start steps = some t) :
    ∀ x ∈ t.run.world.sent, x ∈ start.run.world.sent ∨ s.hasDatabase = true ∧ ∃ threadId message c,
      ApprovedCall d steps threadId message c ∧ PostMade rt s c x := by
  have hworld : ∀ request context w, (d.planFn request d.registry context w).2.sent = w.sent := by
    intro request context w
    rw [hplan, defaultPlanFn]
    split
    next =>
      have hkept := hmodel (toolSpecs spec d.registry)
        [("system", plannerSystem context), ("human", request)] w
      rw [llmPlan]
      split <;> next heq => rw [heq] at hkept; exact hkept
    next => rfl
  have hmade : ∀ request context world plan world',
      d.planFn request d.registry context world = (.ok plan, world') → MadeByPropose d.registry plan := by
    intro request context world plan world' h
    rw [hplan] at h
    exact proposed_of_defaultPlanFn h
  have hinit : ServiceInv d start [] start := by
    refine ⟨fun threadId thread hget => ?_, fun c hc => Or.inl hc⟩
    rw [hthreads, Dict.get?_empty] at hget
    cases hget
  have hgoverned := (invariant_of_history (serviceInv_step hmade) hinit hrun).calls
  have hposted : ∀ x ∈ t.run.world.sent, PostedBy rt s d.registry start.run.world.sent t.run.calls x :=
    invariant_of_exec (posted_step hreg hworld hnarrator) (fun x hx => Or.inl hx) hrun
  intro x hx
  refine (hposted x hx).imp_right ?_
  rintro ⟨c, hc, hdatabase, hpost, tool, hget, hgated⟩
  rcases hgoverned c hc with hold | ⟨threadId, message, hcall⟩
  · rw [hcalls] at hold
    cases hold
  · exact ⟨hdatabase, threadId, message, c, approved_of_governed hcall hget hgated, hpost⟩

end service

/-! ### A model that posts -/

/-- A model that posts in the user's name, whatever it is shown. -/
def postingModel : ChatModel ToolWorld := fun _ _ w =>
  (.ok (some [{ name := some "slack_post_as_user"
                args := some [("channel", .str "general"), ("text", .str "hi")] }]), w)

def postingSpec (name : String) (_ : BaseTool ToolWorld) : ToolSpec := ⟨name, "", .obj []⟩

def connectedSettings : Settings bareRuntime.toConfigRuntime where
  databaseUrl := some "postgresql://db/atlas"
  valid := rfl

/-- Everyone has connected Slack, and Slack takes every post. -/
def connectedWorld : ToolWorld where
  getAccessToken
    | principal, .slack, _ => .ok ("xoxp-" ++ principal.userId)
    | _, _, _ => .error ⟨"CredentialAccessError", "not connected"⟩
  delivery := .answered ⟨200, ⟨"HTTPStatusError", "OK"⟩, .ok (.obj [("ok", .bool true)])⟩

def postingDeployment : Deployment ToolWorld where
  rt := ⟨⟨id, id⟩, sampleSha⟩
  planFn := defaultPlanFn postingModel postingSpec (fun _ => "a1") asciiWord asciiCasing.toLowering true
  registry := (buildRegistry bareRuntime connectedSettings.toSettingsData agreeable).toOption.getD .empty
  order := firstSeenOrder

def connectedService : Service ToolWorld := { graph := .empty none, run := ⟨freshLog, connectedWorld, []⟩ }

-- one post, with the token of the user whose thread it is
example : (exec (serviceStep postingDeployment) connectedService (resumedBy noteReader)).map
    (·.run.world.sent.map fun x => (x.url, x.accessToken)) =
    some [(slackPostUrl, "xoxp-" ++ noteReader.userId)] := by decide

theorem posts_governed_posting : ∃ t,
    exec (serviceStep postingDeployment) connectedService (resumedBy noteReader) = some t ∧
      ∀ x ∈ t.run.world.sent, x ∈ connectedService.run.world.sent ∨
        connectedSettings.hasDatabase = true ∧ ∃ threadId message c,
          ApprovedCall postingDeployment (resumedBy noteReader) threadId message c ∧
          PostMade bareRuntime connectedSettings.toSettingsData c x := by
  obtain ⟨t, hrun⟩ := Option.isSome_iff_exists.mp (show
    (exec (serviceStep postingDeployment) connectedService (resumedBy noteReader)).isSome = true by decide)
  exact ⟨t, hrun, posts_governed bareRuntime connectedSettings.toSettingsData agreeable postingDeployment rfl
    postingModel postingSpec (fun _ => "a1") asciiWord asciiCasing.toLowering true rfl (fun _ _ _ => rfl)
    (fun _ h => nomatch h) connectedService rfl rfl _ t hrun⟩

end Atlas
