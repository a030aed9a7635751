import Atlas.ArgumentModels
import Atlas.Execution.ProviderOnce

/-! Posting to Slack as the authenticated user, twice: the hand-written tool over its provider shim, and the
    tool the engine builds from the packaged schema. Both are run in one world (`SlackWorld`): what the
    credential resolver answers and what becomes of the post. They accept the same arguments, propose
    the same action and send the same request; what they make of a reply differs where it accepts the
    post but lacks a declared key, which the schema's response map takes for a failure. -/

namespace Atlas

/-- What the resolver answers a principal who needs scopes at a provider, what becomes of a post, and the
    requests sent. -/
structure SlackWorld where
  getAccessToken : Principal → OAuthProvider → List String → Except PyError String
  delivery : Delivery
  sent : List Exchange := []

/-! ### The hand-written tool -/

def slackMaxTextChars : ℕ := 40000

def slackUserChatWrite : String := "chat:write"

def slackPostUrl : String := "https://slack.com/api/chat.postMessage"

/-- `_SlackPostAsUserArgs`. -/
def slackPostAsUserArgs (coerce : String → Json → Except String Json) : Args → Except PyError Args :=
  modelValidate coerce "_SlackPostAsUserArgs"
    [{ name := "channel", minLength := some 1 },
      { name := "text", minLength := some 1, maxLength := some slackMaxTextChars }]

structure SlackUserMessage where
  channel : String
  text : String
  deriving DecidableEq, Repr

/-- What the sender makes of a response. -/
def slackUserReply (response : HttpResponse) : Except PyError Json :=
  if ¬(200 ≤ response.statusCode ∧ response.statusCode ≤ 299) then .error response.statusError
  else
    match response.body with
    | .error e => .error e
    | .ok (.obj data) =>
      if ((Json.field? "ok" data).map Json.truthy).getD false then
        .ok (.obj [("ts", (Json.field? "ts" data).getD .null),
          ("channel", (Json.field? "channel" data).getD .null), ("provider", .str "slack_user")])
      else
        .error ⟨"RuntimeError", ((Json.field? "error" data).getD (.str "Slack API error")).pyStr⟩
    | .ok v => .error ⟨"AttributeError", "'" ++ v.typeName ++ "' object has no attribute 'get'"⟩

/-- `SlackUserApiSender.post`. -/
def slackUserPost (message : SlackUserMessage) (accessToken : String) (w : SlackWorld) :
    Except PyError Json × SlackWorld :=
  if slackMaxTextChars < message.text.length then
    (.error ⟨"ValueError", "text exceeds Slack limit (40000 chars)"⟩, w)
  else
    let payload : Args := [("channel", .str message.channel), ("text", .str message.text),
      ("unfurl_links", .bool false), ("unfurl_media", .bool false)]
    match w.delivery with
    | .refused e => (.error e, w)
    | .lost e => (.error e, { w with sent := w.sent ++ [⟨slackPostUrl, payload, accessToken, none⟩] })
    | .answered response =>
      (slackUserReply response,
        { w with sent := w.sent ++ [⟨slackPostUrl, payload, accessToken, some response⟩] })

/-- `SlackPostAsUserTool.run`. -/
def slackPostAsUserRun (configured : Bool) (args : Args) (principal : Principal) (w : SlackWorld) :
    Except PyError Json × SlackWorld :=
  match Json.field? "channel" args, Json.field? "text" args with
  | some (.str channel), some (.str text) =>
    if !configured then (.error ⟨"RuntimeError", "slack user post not configured"⟩, w)
    else
      match w.getAccessToken principal .slack [slackUserChatWrite] with
      | .error e => (.error e, w)
      | .ok token => slackUserPost ⟨channel, text⟩ token w
  | _, _ => (.error ⟨"TypeError", "expected _SlackPostAsUserArgs"⟩, w)

def slackPostAsUserTool (coerce : String → Json → Except String Json) (configured : Bool) :
    BaseTool SlackWorld where
  name := "slack_post_as_user"
  riskTier := .send
  argsSchema := slackPostAsUserArgs coerce
  requiredPermission := some "tool:slack:post_as_user"
  run := slackPostAsUserRun configured

/-! ### The schema-built tool -/

/-- The world as a run of a schema tool meets it: the resolver asked for the schema's provider and scopes. -/
def SlackWorld.outside (w : SlackWorld) (principal : Principal) (schema : ToolSchema) : Outside where
  accessToken _ := w.getAccessToken principal schema.provider schema.requiredScopes
  delivery _ := w.delivery
  sent := w.sent

/-- The tool an engine builds from the packaged schema, in the world of the hand-written one. -/
def slackSchemaTool (engine : AdapterEngine) (coerce : String → Json → Except String Json) :
    BaseTool SlackWorld :=
  let tool := { engine with argsModel := buildArgsModel coerce }.schemaTool slackPostSchema "slack.com"
  { name := tool.name
    riskTier := tool.riskTier
    argsSchema := tool.argsSchema
    requiredPermission := tool.requiredPermission
    resourcePermission := tool.resourcePermission
    run := fun args principal w =>
      let (result, after) := tool.run args principal (w.outside principal slackPostSchema)
      (result, { w with sent := after.sent })
    auditMetadata := tool.auditMetadata }

/-! ### Arguments and proposals -/

section twins
variable {engine : AdapterEngine} {coerce : String → Json → Except String Json}

/-- The generated argument model accepts what the hand-written one accepts. -/
theorem buildArgsModel_eq_ok {args values : Args} :
    buildArgsModel coerce slackPostSchema args = .ok values ↔
      slackPostAsUserArgs coerce args = .ok values := by
  rw [buildArgsModel, slackPostAsUserArgs, modelValidate_eq_ok, modelValidate_eq_ok]
  rfl

/-- Valid arguments are two strings, the text within the limit. -/
theorem slackPostAsUserArgs_eq_ok {args values : Args} (h : slackPostAsUserArgs coerce args = .ok values) :
    ∃ channel text, values = [("channel", .str channel), ("text", .str text)] ∧
      text.length ≤ slackMaxTextChars := by
  rw [slackPostAsUserArgs, modelValidate_eq_ok, List.forall₂_cons_left_iff] at h
  obtain ⟨_, rest, ⟨c, hc, rfl⟩, hrest, rfl⟩ := h
  obtain ⟨_, none, ⟨t, ht, rfl⟩, hnone, rfl⟩ := List.forall₂_cons_left_iff.mp hrest
  obtain rfl := List.forall₂_nil_left_iff.mp hnone
  obtain ⟨channel, -, hchannel⟩ := (validate_str_eq_ok rfl rfl).mp hc
  obtain ⟨text, -, htext⟩ := (validate_str_eq_ok rfl rfl).mp ht
  obtain ⟨-, -, rfl⟩ := checkLength_eq_ok.mp hchannel
  obtain ⟨-, hmax, rfl⟩ := checkLength_eq_ok.mp htext
  exact ⟨channel, text, rfl, by simpa using hmax⟩

/-- Both tools propose the same action, or refuse the arguments both. -/
theorem propose_twins {hand schema : ToolRegistry SlackWorld} {name : String} {configured : Bool}
    (hhand : hand.get name = .ok (slackPostAsUserTool coerce configured))
    (hschema : schema.get name = .ok (slackSchemaTool engine coerce)) (actionId : String) (args : Args)
    (rationale : String) (a : ProposedAction) :
    hand.propose actionId name args rationale = .ok a ↔
      schema.propose actionId name args rationale = .ok a := by
  have hargs : ∀ values, (slackSchemaTool engine coerce).argsSchema args = .ok values ↔
      (slackPostAsUserTool coerce configured).argsSchema args = .ok values := fun _ => buildArgsModel_eq_ok
  have hpermission : ∀ values, (slackSchemaTool engine coerce).permissionFor values =
      (slackPostAsUserTool coerce configured).permissionFor values := fun _ => rfl
  simp only [ToolRegistry.propose, hhand, hschema, Fallible.ok_bind, Fallible.bind_eq_ok, hargs, hpermission]
  rfl

/-! ### Replies -/

/-- A reply that accepts the post but lacks a key that the schema declares. -/
def AcceptedIncomplete (response : HttpResponse) : Prop :=
  accepts slackPostSchema response = true ∧ completeReply slackPostSchema response = false

/-- The result of a hand-written and of a schema-built run are the same, or both are failures. -/
def SameOutcome (hand schema : Except PyError Json) : Prop := ∀ out, hand = .ok out ↔ schema = .ok out

theorem sameOutcome_of_errors {e e' : PyError} : SameOutcome (.error e) (.error e') := fun _ => by simp

theorem slackUserReply_of_error {response : HttpResponse} {e : PyError}
    (h : decodeJsonResponse response = .error e) : ∃ e', slackUserReply response = .error e' := by
  unfold slackUserReply
  by_cases hstatus : 200 ≤ response.statusCode ∧ response.statusCode ≤ 299
  · rw [if_neg (not_not.mpr hstatus)]
    rcases hbody : response.body with e' | v
    · exact ⟨e', rfl⟩
    · cases v with
      | obj data => rw [decodeJsonResponse_eq_ok.mpr ⟨hstatus, hbody⟩] at h; cases h
      | _ => exact ⟨_, rfl⟩
  · exact ⟨_, if_pos hstatus⟩

theorem slackUserReply_of_data {response : HttpResponse} {data : Args}
    (h : decodeJsonResponse response = .ok data) : slackUserReply response =
      if okReply slackPostSchema data then
        .ok (.obj [("ts", (Json.field? "ts" data).getD .null),
          ("channel", (Json.field? "channel" data).getD .null), ("provider", .str "slack_user")])
      else .error ⟨"RuntimeError", ((Json.field? "error" data).getD (.str "Slack API error")).pyStr⟩ := by
  obtain ⟨hstatus, hbody⟩ := decodeJsonResponse_eq_ok.mp h
  rw [slackUserReply, if_neg (not_not.mpr hstatus), hbody]
  rfl

/-- The two readings of a reply come to the same, unless it accepts and is incomplete. -/
theorem sameOutcome_reply_iff (response : HttpResponse) :
    SameOutcome (slackUserReply response)
      (decodeJsonResponse response >>= handleReply slackPostSchema) ↔ ¬AcceptedIncomplete response := by
  cases hdecode : decodeJsonResponse response with
  | error e =>
    obtain ⟨e', he'⟩ := slackUserReply_of_error hdecode
    rw [he']
    refine iff_of_true sameOutcome_of_errors fun h => ?_
    obtain ⟨data, hdata, -⟩ := accepts_iff.mp h.1
    rw [hdecode] at hdata
    cases hdata
  | ok data =>
    rw [slackUserReply_of_data hdecode, Fallible.ok_bind, handleReply]
    have haccepts : accepts slackPostSchema response = okReply slackPostSchema data := by
      rw [Bool.eq_iff_iff, accepts_iff, hdecode]
      constructor
      · rintro ⟨d, hd, hok⟩
        cases hd
        exact hok
      · exact fun hok => ⟨data, rfl, hok⟩
    rw [AcceptedIncomplete, haccepts, completeReply, (decodeJsonResponse_eq_ok.mp hdecode).2]
    cases hok : okReply slackPostSchema data with
    | false => exact iff_of_true sameOutcome_of_errors (by simp)
    | true =>
      cases hts : Json.field? "ts" data <;> cases hchannel : Json.field? "channel" data <;>
        simp [SameOutcome, slackPostSchema, shapeResponse, hts, hchannel, Except.map]

/-! ### Runs -/

/-- A post on record: to the one URL, with the two arguments. -/
def slackExchange (channel text token : String) (response : Option HttpResponse) : Exchange where
  url := slackPostUrl
  payload := [("channel", .str channel), ("text", .str text), ("unfurl_links", .bool false),
    ("unfurl_media", .bool false)]
  accessToken := token
  response := response

/-- A run of either tool on valid arguments, with its own error where it is not configured and its own
    reading of a reply. -/
def slackRun (configured : Bool) (unconfigured : PyError) (readReply : HttpResponse → Except PyError Json)
    (channel text : String) (principal : Principal) (w : SlackWorld) : Except PyError Json × SlackWorld :=
  if !configured then (.error unconfigured, w)
  else
    match w.getAccessToken principal .slack [slackUserChatWrite] with
    | .error e => (.error e, w)
    | .ok token =>
      match w.delivery with
      | .refused e => (.error e, w)
      | .lost e => (.error e, { w with sent := w.sent ++ [slackExchange channel text token none] })
      | .answered response =>
        (readReply response, { w with sent := w.sent ++ [slackExchange channel text token (some response)] })

theorem slackPostAsUserRun_eq (configured : Bool) {channel text : String}
    (htext : text.length ≤ slackMaxTextChars) (principal : Principal) (w : SlackWorld) :
    slackPostAsUserRun configured [("channel", .str channel), ("text", .str text)] principal w =
      slackRun configured ⟨"RuntimeError", "slack user post not configured"⟩ slackUserReply channel text
        principal w := by
  have hchannel : Json.field? "channel" [("channel", Json.str channel), ("text", .str text)] =
    some (.str channel) := rfl
  have htextField : Json.field? "text" [("channel", Json.str channel), ("text", .str text)] =
    some (.str text) := rfl
  simp only [slackPostAsUserRun, slackRun, hchannel, htextField]
  cases configured with
  | false => rfl
  | true =>
    cases w.getAccessToken principal .slack [slackUserChatWrite] with
    | error e => rfl
    | ok token =>
      simp only [slackUserPost, if_neg (not_lt.mpr htext)]
      cases w.delivery <;> rfl

theorem slackSchemaTool_run_eq (channel text : String) (principal : Principal) (w : SlackWorld) :
    (slackSchemaTool engine coerce).run [("channel", .str channel), ("text", .str text)] principal w =
      slackRun engine.configured ⟨"RuntimeError", "slack_post_as_user not configured"⟩
        (fun response => decodeJsonResponse response >>= handleReply slackPostSchema) channel text
        principal w := by
  obtain ⟨getAccessToken, delivery, sent⟩ := w
  simp only [slackSchemaTool, AdapterEngine.schemaTool, AdapterEngine.runTool, slackRun, SlackWorld.outside]
  cases engine.configured with
  | false => rfl
  | true =>
    have hask : getAccessToken principal slackPostSchema.provider slackPostSchema.requiredScopes =
      getAccessToken principal .slack [slackUserChatWrite] := rfl
    simp only [Bool.not_true, Bool.false_eq_true, if_false, hask]
    cases getAccessToken principal .slack [slackUserChatWrite] with
    | error e => rfl
    | ok token =>
      cases delivery with
      | refused e => rfl
      | lost e => rfl
      | answered response =>
        simp only [postJson]
        cases decodeJsonResponse response <;> rfl

/-- The post goes out and is answered by a reply that accepts it and is incomplete. -/
def LosesReceipt (configured : Bool) (principal : Principal) (w : SlackWorld) : Prop :=
  configured = true ∧ (∃ token, w.getAccessToken principal .slack [slackUserChatWrite] = .ok token) ∧
    ∃ response, w.delivery = .answered response ∧ AcceptedIncomplete response

/-- On valid arguments both runs send the same request, and end in the same way unless the receipt of an
    accepted post is lost. -/
theorem run_twins (engine : AdapterEngine) {args values : Args}
    (hvalid : slackPostAsUserArgs coerce args = .ok values) (principal : Principal) (w : SlackWorld) :
    (slackPostAsUserRun engine.configured values principal w).2.sent =
        ((slackSchemaTool engine coerce).run values principal w).2.sent ∧
      (SameOutcome (slackPostAsUserRun engine.configured values principal w).1
          ((slackSchemaTool engine coerce).run values principal w).1 ↔
        ¬LosesReceipt engine.configured principal w) := by
  obtain ⟨channel, text, rfl, htext⟩ := slackPostAsUserArgs_eq_ok hvalid
  rw [slackPostAsUserRun_eq engine.configured htext, slackSchemaTool_run_eq, LosesReceipt, slackRun, slackRun]
  cases engine.configured with
  | false => exact ⟨rfl, iff_of_true sameOutcome_of_errors (by simp)⟩
  | true =>
    cases w.getAccessToken principal .slack [slackUserChatWrite] with
    | error e => exact ⟨rfl, iff_of_true sameOutcome_of_errors (by simp)⟩
    | ok token =>
      cases w.delivery with
      | refused e => exact ⟨rfl, iff_of_true sameOutcome_of_errors (by simp)⟩
      | lost e => exact ⟨rfl, iff_of_true sameOutcome_of_errors (by simp)⟩
      | answered response =>
        refine ⟨rfl, (sameOutcome_reply_iff response).trans (not_congr ?_)⟩
        simp

/-! ### The two registries -/

/-- What an action comes to is what the run of its tool comes to. -/
theorem execute_of_valid {reg : ToolRegistry SlackWorld} {tool : BaseTool SlackWorld}
    {action : ProposedAction} {values : Args} (principal : Principal) (w : SlackWorld)
    (hget : reg.get action.tool = .ok tool) (hargs : tool.argsSchema action.args = .ok values) :
    (reg.execute action principal w).2 = (tool.run values principal w).2 ∧
      ∀ out, (reg.execute action principal w).1.ok = true ∧ (reg.execute action principal w).1.output = out ↔
        (tool.run values principal w).1 = .ok out := by
  rw [ToolRegistry.execute, ToolRegistry.resolve_eq_ok.mpr ⟨hget, hargs⟩]
  rcases hrun : tool.run values principal w with ⟨e | out, w'⟩ <;>
    simp [hrun, ToolRegistry.errorResult]

/-- An action with invalid arguments fails and changes nothing. -/
theorem execute_of_invalid {reg : ToolRegistry SlackWorld} {tool : BaseTool SlackWorld}
    {action : ProposedAction} (principal : Principal) (w : SlackWorld)
    (hget : reg.get action.tool = .ok tool) (hargs : ∀ values, tool.argsSchema action.args ≠ .ok values) :
    (reg.execute action principal w).2 = w ∧ (reg.execute action principal w).1.ok = false := by
  rw [ToolRegistry.execute]
  split
  next => exact ⟨rfl, rfl⟩
  next tool' values hresolve =>
    obtain ⟨hget', hvalid⟩ := ToolRegistry.resolve_eq_ok.mp hresolve
    rw [hget, Except.ok.injEq] at hget'
    exact absurd hvalid (hget' ▸ hargs values)

/-- What it means that one tool can take the place of the other. -/
structure TwinsAgree (hand schema : ToolRegistry SlackWorld) (action : ProposedAction)
    (principal : Principal) (w : SlackWorld) : Prop where
  proposes : ∀ actionId rationale a,
    hand.propose actionId action.tool action.args rationale = .ok a ↔
      schema.propose actionId action.tool action.args rationale = .ok a
  sends : (hand.execute action principal w).2.sent = (schema.execute action principal w).2.sent
  ok : (hand.execute action principal w).1.ok = (schema.execute action principal w).1.ok
  output : (hand.execute action principal w).1.ok = true →
    (hand.execute action principal w).1.output = (schema.execute action principal w).1.output

theorem sameResult_iff {r r' : ActionResult} :
    (r.ok = r'.ok ∧ (r.ok = true → r.output = r'.output)) ↔
      ∀ out, (r.ok = true ∧ r.output = out) ↔ (r'.ok = true ∧ r'.output = out) := by
  constructor
  · rintro ⟨hok, hout⟩ out
    rw [hok]
    refine and_congr_right fun htrue => ?_
    rw [hout (hok.trans htrue)]
  · intro h
    have hok : r.ok = r'.ok := by
      rw [Bool.eq_iff_iff]
      exact ⟨fun htrue => ((h r.output).mp ⟨htrue, rfl⟩).1, fun htrue => ((h r'.output).mpr ⟨htrue, rfl⟩).1⟩
    exact ⟨hok, fun htrue => ((h r.output).mp ⟨htrue, rfl⟩).2.symm⟩

end twins

/-- The schema-built tool takes the place of the hand-written one: it proposes the same actions and sends
    the same requests always, and its results are the same unless the provider accepts a post in a reply
    without `ts` or `channel`. -/
theorem slackTwins_agree_iff (engine : AdapterEngine) (coerce : String → Json → Except String Json)
    (hand schema : ToolRegistry SlackWorld) (action : ProposedAction) (principal : Principal) (w : SlackWorld)
    (hhand : hand.get action.tool = .ok (slackPostAsUserTool coerce engine.configured))
    (hschema : schema.get action.tool = .ok (slackSchemaTool engine coerce)) :
    (∀ actionId rationale a, hand.propose actionId action.tool action.args rationale = .ok a ↔
      schema.propose actionId action.tool action.args rationale = .ok a) ∧
    (hand.execute action principal w).2.sent = (schema.execute action principal w).2.sent ∧
    (TwinsAgree hand schema action principal w ↔
      ¬((∃ values, slackPostAsUserArgs coerce action.args = .ok values) ∧
        LosesReceipt engine.configured principal w)) := by
  have hproposes := fun actionId rationale a => propose_twins hhand hschema actionId action.args rationale a
  by_cases hvalid : ∃ values, slackPostAsUserArgs coerce action.args = .ok values
  · obtain ⟨values, hvalues⟩ := hvalid
    obtain ⟨hsent, hsame⟩ := run_twins engine hvalues principal w
    obtain ⟨hhandAfter, hhandOut⟩ := execute_of_valid principal w hhand hvalues
    obtain ⟨hschemaAfter, hschemaOut⟩ :=
      execute_of_valid principal w hschema (buildArgsModel_eq_ok.mpr hvalues)
    have hsends : (hand.execute action principal w).2.sent = (schema.execute action principal w).2.sent := by
      rw [hhandAfter, hschemaAfter]
      exact hsent
    refine ⟨hproposes, hsends, ?_⟩
    have hresults := @sameResult_iff (hand.execute action principal w).1 (schema.execute action principal w).1
    simp only [hhandOut, hschemaOut] at hresults
    rw [and_iff_right ⟨values, hvalues⟩, ← hsame]
    exact ⟨fun h => hresults.mp ⟨h.ok, h.output⟩,
      fun h => ⟨hproposes, hsends, (hresults.mpr h).1, (hresults.mpr h).2⟩⟩
  · have hinvalid : ∀ values, slackPostAsUserArgs coerce action.args ≠ .ok values := not_exists.mp hvalid
    obtain ⟨hhandAfter, hhandFails⟩ := execute_of_invalid principal w hhand hinvalid
    obtain ⟨hschemaAfter, hschemaFails⟩ := execute_of_invalid principal w hschema
      fun values hvalues => hinvalid values (buildArgsModel_eq_ok.mp hvalues)
    have hsends : (hand.execute action principal w).2.sent = (schema.execute action principal w).2.sent := by
      rw [hhandAfter, hschemaAfter]
    refine ⟨hproposes, hsends, iff_of_true ⟨hproposes, hsends, hhandFails.trans hschemaFails.symm, ?_⟩ ?_⟩
    · intro hok
      rw [hhandFails] at hok
      cases hok
    · exact fun h => hvalid h.1

/-! ### One reply -/

/-- A registry of one tool. -/
def soleRegistry {σ : Type} (tool : BaseTool σ) : ToolRegistry σ where
  tools := Dict.empty.set tool.name tool
  named := fun {n t} h => by
    rw [Dict.get?_set] at h
    split at h
    next hn => cases h; exact hn.symm
    next => simp at h

/-- No reading of types other than strings. -/
def stringsOnly : String → Json → Except String Json := fun _ _ => .error "unsupported"

/-- A resolver with a token for everyone, and a provider that answers with one object. -/
def slackAnswers (data : Args) : SlackWorld where
  getAccessToken _ _ _ := .ok "xoxp"
  delivery := .answered ⟨200, ⟨"HTTPStatusError", ""⟩, .ok (.obj data)⟩

theorem slackTwins_agree_complete :
    TwinsAgree (soleRegistry (slackPostAsUserTool stringsOnly true))
      (soleRegistry (slackSchemaTool slackEngine stringsOnly)) slackAction { userId := "alice" }
      (slackAnswers [("ok", .bool true), ("ts", .str "1.0"), ("channel", .str "C1")]) := by
  refine (slackTwins_agree_iff slackEngine stringsOnly _ _ slackAction { userId := "alice" } _ rfl
    rfl).2.2.mpr ?_
  rintro ⟨-, -, -, response, hresponse, -, hincomplete⟩
  cases hresponse
  exact absurd hincomplete (by decide)

/-- A reply without `ts` is a success for the hand-written tool and a failure for the other. -/
theorem slackTwins_differ : ¬∀ (engine : AdapterEngine) (coerce : String → Json → Except String Json)
    (hand schema : ToolRegistry SlackWorld) (action : ProposedAction) (principal : Principal)
    (w : SlackWorld), hand.get action.tool = .ok (slackPostAsUserTool coerce engine.configured) →
    schema.get action.tool = .ok (slackSchemaTool engine coerce) →
    TwinsAgree hand schema action principal w := by
  intro h
  have hok := (h slackEngine stringsOnly (soleRegistry (slackPostAsUserTool stringsOnly true))
    (soleRegistry (slackSchemaTool slackEngine stringsOnly)) slackAction { userId := "alice" }
    (slackAnswers [("ok", .bool true), ("channel", .str "C1")]) rfl rfl).ok
  exact absurd hok (by decide)

end Atlas
