import Atlas.Lib.Lines
import Atlas.Orchestration.Turn

/-! The summary the responder gives of a turn. A line says of an action what became of it, by the result
    that the executor returned for it and by whether a human rejected it; what did become of it is the last
    event that ends it in the log. `executorLoop_rounds` keeps the two together through the executor's loop.
    The labels fall short of the log where the loop has an end the summary has no word for: a denial after
    the pause has no result either, an output may look like the marker of a replay, and a printed text may
    break its line (`summaryAgrees_iff`). -/

namespace Atlas

open Text

variable {σ : Type}

/-! ### The summary -/

/-- `isinstance(output, dict) and output.get("replay_skipped")`. -/
def replayMarked : Json → Bool
  | .obj fields => ((Json.field? "replay_skipped" fields).getD .null).truthy
  | _ => false

/-- `{result.action_id: result for result in results}`. -/
def resultsById (results : List ActionResult) : Dict String ActionResult :=
  Dict.empty.setAll (·.actionId) results

/-- The line of an action. -/
def summaryLine (results : List ActionResult) (rejected : List String) (action : ProposedAction) : String :=
  match (resultsById results).get? action.actionId with
  | none =>
    "- " ++ (if rejected.contains action.actionId then "Rejected" else "Skipped (not approved)") ++ ": " ++
      action.tool ++ " (" ++ action.riskTier.value ++ ")"
  | some result =>
    if replayMarked result.output then "- Replay skipped (already executed): " ++ action.tool
    else if result.ok then "- Executed: " ++ action.tool ++ " -> " ++ result.output.pyStr
    else "- Failed: " ++ action.tool ++ " -> " ++ result.error.getD "None"

/-- `_summarize`. -/
def summarize (proposed : List ProposedAction) (results : List ActionResult) (rejected : List String) :
    String :=
  if proposed.isEmpty then "I did not need to take any actions to answer that."
  else "Here is what I did:\n" ++ "\n".intercalate (proposed.map (summaryLine results rejected))

/-- The responder's summary of a turn. -/
def Turn.summary (turn : Turn σ) : String :=
  summarize turn.state.proposedActions turn.state.actionResults turn.state.rejectedActionIds

def Turn.line (turn : Turn σ) (action : ProposedAction) : String :=
  summaryLine turn.state.actionResults turn.state.rejectedActionIds action

/-! ### What it should say -/

/-- What a line says became of its action. -/
inductive SummaryLabel where | executed | failed | replaySkipped | rejected | skipped
  deriving DecidableEq

def SummaryLabel.text : SummaryLabel → String
  | executed => "Executed"
  | failed => "Failed"
  | replaySkipped => "Replay skipped (already executed)"
  | rejected => "Rejected"
  | skipped => "Skipped (not approved)"

/-- How a line with a label begins. -/
def SummaryLabel.head (label : SummaryLabel) : String := "- " ++ label.text ++ ": "

def Labelled (line : String) (label : SummaryLabel) : Prop := hasPrefix label.head line = true

instance (line : String) (label : SummaryLabel) : Decidable (Labelled line label) :=
  inferInstanceAs (Decidable (_ = true))

/-- The event that ends an action: the last one about it that can. -/
def terminalEvent (events : List AuditEvent) (i : String) : Option AuditEventType :=
  ((events.filter (fun e => e.actionId == i && e.eventType.isTerminal)).getLast?).map (·.eventType)

/-- The summary has a line for every surfaced action, in their order, and the lines agree with the log. -/
structure SummaryAgrees (turn : Turn σ) : Prop where
  lines : turn.state.proposedActions ≠ [] →
    Text.lines turn.summary = "Here is what I did:" :: turn.state.proposedActions.map turn.line
  executed : ∀ a ∈ turn.state.proposedActions,
    (Labelled (turn.line a) .executed ↔ terminalEvent turn.events a.actionId = some .executed)
  failed : ∀ a ∈ turn.state.proposedActions,
    (Labelled (turn.line a) .failed ↔ terminalEvent turn.events a.actionId = some .failed)
  replaySkipped : ∀ a ∈ turn.state.proposedActions,
    (Labelled (turn.line a) .replaySkipped ↔ terminalEvent turn.events a.actionId = some .replaySkipped)
  rejected : ∀ a ∈ turn.state.proposedActions, Labelled (turn.line a) .rejected →
    (∃ e ∈ turn.events, e.actionId = a.actionId ∧ e.eventType = .rejected) ∧
      resultIn turn.events a.actionId = false
  skipped : ∀ a ∈ turn.state.proposedActions, Labelled (turn.line a) .skipped →
    terminalEvent turn.events a.actionId = some .skipped

/-- The principal still has the permission that the action requires. -/
def StillPermitted (reg : ToolRegistry σ) (principal : Principal) (policy : PolicyStore)
    (action : ProposedAction) : Prop :=
  ∃ required, resolvePermission reg action = .ok required ∧ policy.can (some principal) required = true

/-- What a result prints on its line. -/
def ActionResult.printed (result : ActionResult) : String :=
  if result.ok then result.output.pyStr else result.error.getD "None"

/-- Nothing happened in the turn that the summary has no words for: the executor found every action that was
    not rejected still permitted, no tool that ran returned what a replay does, and neither the name of a
    tool nor what a result prints has a line break. -/
structure SummaryReadable (g : AgentGraph σ) (turn : Turn σ) : Prop where
  permitted : ∀ k a, turn.state.proposedActions[k]? = some a → a.actionId ∉ turn.state.rejectedActionIds →
    StillPermitted g.registry (getCurrentPrincipal turn.state) (g.executorPolicy k) a
  unmarked : ∀ result ∈ turn.state.actionResults,
    terminalEvent turn.events result.actionId ≠ some .replaySkipped → replayMarked result.output = false
  unbroken : ∀ a ∈ turn.state.proposedActions, '\n' ∉ a.tool.toList ∧
    ∀ result ∈ turn.state.actionResults, result.actionId = a.actionId →
      replayMarked result.output = false → '\n' ∉ result.printed.toList

/-! ### Lines and labels -/

/-- The label of an action by its result and the rejections. -/
def labelOf (result : Option ActionResult) (isRejected : Bool) : SummaryLabel :=
  match result with
  | none => if isRejected then .rejected else .skipped
  | some result =>
    if replayMarked result.output then .replaySkipped else if result.ok then .executed else .failed

/-- What stands on a line behind its label. -/
def detailOf (result : Option ActionResult) (action : ProposedAction) : String :=
  match result with
  | none => action.tool ++ " (" ++ action.riskTier.value ++ ")"
  | some result =>
    if replayMarked result.output then action.tool else action.tool ++ " -> " ++ result.printed

section line
variable {results : List ActionResult} {rejected : List String} {action : ProposedAction}
  {result : Option ActionResult}

theorem summaryLine_eq (h : (resultsById results).get? action.actionId = result) :
    summaryLine results rejected action =
      (labelOf result (rejected.contains action.actionId)).head ++ detailOf result action := by
  rw [summaryLine, h]
  cases result with
  | none => cases hrej : rejected.contains action.actionId <;> simp [labelOf, detailOf, SummaryLabel.head,
      SummaryLabel.text, String.append_assoc]
  | some result =>
    simp only [labelOf, detailOf, ActionResult.printed]
    cases replayMarked result.output with
    | true => rfl
    | false =>
      cases result.ok <;> simp [SummaryLabel.head, SummaryLabel.text, ← String.append_assoc]

/-- No label is the beginning of another one. -/
theorem label_eq_of_isPrefix {l l' : SummaryLabel} (h : l.head.toList <+: l'.head.toList) : l = l' := by
  cases l <;> cases l' <;> first | rfl | exact absurd h (by decide)

/-- A line has the label it was written with and no other. -/
theorem labelled_iff (h : (resultsById results).get? action.actionId = result) (label : SummaryLabel) :
    Labelled (summaryLine results rejected action) label ↔
      labelOf result (rejected.contains action.actionId) = label := by
  rw [summaryLine_eq h, Labelled, hasPrefix, List.isPrefixOf_iff_prefix, String.toList_append]
  constructor
  · intro hbegins
    rcases List.prefix_or_prefix_of_prefix (List.prefix_append _ _) hbegins with h | h
    · exact label_eq_of_isPrefix h
    · exact (label_eq_of_isPrefix h).symm
  · rintro rfl
    exact List.prefix_append _ _

theorem newline_mem_summaryLine (h : (resultsById results).get? action.actionId = result) :
    '\n' ∉ (summaryLine results rejected action).toList ↔ '\n' ∉ action.tool.toList ∧
      ∀ r, result = some r → replayMarked r.output = false → '\n' ∉ r.printed.toList := by
  have hhead : ∀ label : SummaryLabel, '\n' ∉ label.head.toList := by
    intro label
    cases label <;> decide
  have htier : ∀ tier : RiskTier, '\n' ∉ tier.value.toList := by
    intro tier
    cases tier <;> decide
  rw [summaryLine_eq h, String.toList_append, List.mem_append, not_or, and_iff_right (hhead _)]
  cases result with
  | none => simp [detailOf, htier]
  | some r =>
    cases hmarked : replayMarked r.output with
    | true => simp [detailOf, hmarked]
    | false => simp [detailOf, hmarked]

end line

/-! ### The executor's rounds -/

/-- How one round of the executor ends an action. -/
inductive RoundEnds (reg : ToolRegistry σ) (p : Principal) (policy : PolicyStore) (a : ProposedAction) :
    Option ActionResult → AuditEventType → Prop
  | denied : ¬StillPermitted reg p policy a → RoundEnds reg p policy a none .denied
  | skipped : StillPermitted reg p policy a → RoundEnds reg p policy a none .skipped
  | replayed {result : ActionResult} : StillPermitted reg p policy a → replayMarked result.output = true →
      RoundEnds reg p policy a (some result) .replaySkipped
  | executed {result : ActionResult} : StillPermitted reg p policy a → result.ok = true →
      RoundEnds reg p policy a (some result) .executed
  | failed {result : ActionResult} : StillPermitted reg p policy a → result.ok = false →
      replayMarked result.output = false → RoundEnds reg p policy a (some result) .failed

variable {reg : ToolRegistry σ} {p : Principal} {approved : List String}

theorem RoundEnds.isTerminal {policy : PolicyStore} {a : ProposedAction} {result : Option ActionResult}
    {t : AuditEventType} (h : RoundEnds reg p policy a result t) : t.isTerminal = true := by
  cases h <;> rfl

/-- A failure has no output. -/
theorem output_of_failed {a : ProposedAction} {world : σ} (h : (reg.execute a p world).1.ok = false) :
    replayMarked (reg.execute a p world).1.output = false := by
  unfold ToolRegistry.execute at h ⊢
  split at h
  next => rfl
  next tool args hresolve =>
    split at h
    next => cases h
    next e world' hrun => rfl

/-- A guarded execution is a replay, a success or a failure. -/
theorem executeGuarded_ends {policy : PolicyStore} {a : ProposedAction} (h : StillPermitted reg p policy a)
    (extra : Option AuditToolContext) (st : RunState σ) :
    (executeGuarded reg a p extra st).1.actionId = a.actionId ∧
    ∃ e, (executeGuarded reg a p extra st).2.audit.events = st.audit.events ++ [e] ∧
      e.actionId = a.actionId ∧
      RoundEnds reg p policy a (some (executeGuarded reg a p extra st).1) e.eventType := by
  rw [executeGuarded]
  split
  next =>
    refine ⟨rfl, _, rfl, rfl, .replayed h ?_⟩
    simp only [replayResult]
    split <;> rfl
  next =>
    have hid := ToolRegistry.actionId_execute reg a p st.world
    refine ⟨hid, ?_⟩
    simp only [recordOutcome]
    split
    next hok => exact ⟨_, rfl, hid, .executed h hok⟩
    next hok =>
      have hfailed : (reg.execute a p st.world).1.ok = false := by simpa using hok
      exact ⟨_, rfl, hid, .failed h hfailed (output_of_failed hfailed)⟩

/-- One round appends the event that ends its action, and returns a result that agrees with it. -/
theorem executorAction_ends (reg : ToolRegistry σ) (p : Principal) (approved : List String)
    (policy : PolicyStore) (a : ProposedAction) (st : RunState σ) :
    ∃ e, (executorAction reg p approved policy a st).2.audit.events = st.audit.events ++ [e] ∧
      e.actionId = a.actionId ∧
      RoundEnds reg p policy a (executorAction reg p approved policy a st).1 e.eventType ∧
      ∀ result ∈ (executorAction reg p approved policy a st).1, result.actionId = a.actionId := by
  unfold executorAction
  cases hg : reg.get a.tool with
  | error err =>
    refine ⟨_, rfl, rfl, .denied ?_, by simp⟩
    rintro ⟨required, hr, -⟩
    rw [resolvePermission, hg] at hr
    cases hr
  | ok tool =>
    have hres := resolvePermission_of_get hg
    cases hr : requiredPermissionFor a tool with
    | error err =>
      simp only [hr]
      refine ⟨_, rfl, rfl, .denied ?_, by simp⟩
      rintro ⟨required, hok, -⟩
      rw [hres, hr] at hok
      cases hok
    | ok required =>
      simp only [hr]
      split
      next hdenied =>
        refine ⟨_, rfl, rfl, .denied ?_, by simp⟩
        rintro ⟨required', hok, hcan⟩
        rw [hres, hr] at hok
        cases hok
        rw [hcan] at hdenied
        cases hdenied
      next hallowed =>
        have hpermitted : StillPermitted reg p policy a :=
          ⟨required, hres.trans hr, by simpa using hallowed⟩
        split
        next => exact ⟨_, rfl, rfl, .skipped hpermitted, by simp⟩
        next =>
          obtain ⟨hid, e, hevents, heid, hends⟩ :=
            executeGuarded_ends hpermitted (some (tool.auditContext p)) st
          exact ⟨e, hevents, heid, hends, by simpa using hid⟩

/-- What a loop of rounds over distinct actions leaves: the end of each with a result that agrees with it,
    and nothing else. -/
structure RoundsEnd (reg : ToolRegistry σ) (p : Principal) (policy : ℕ → PolicyStore) (i : ℕ)
    (as : List ProposedAction) (results : List ActionResult) (events : List AuditEvent) : Prop where
  account : ExecutorAccount as results events
  ends : ∀ k a, as[k]? = some a → ∃ result t, RoundEnds reg p (policy (i + k)) a result t ∧
    results.filter (·.actionId == a.actionId) = result.toList ∧ terminalEvent events a.actionId = some t

theorem ExecutorAccount.ids {as : List ProposedAction} {results : List ActionResult}
    {events : List AuditEvent} (h : ExecutorAccount as results events) {result : ActionResult}
    (hmem : result ∈ results) : result.actionId ∈ as.map (·.actionId) := by
  have hid := List.mem_map_of_mem (f := (·.actionId)) hmem
  rw [h.results] at hid
  exact List.map_subset _ (List.filter_subset_self _) hid

theorem terminalEvent_append {es es' : List AuditEvent} {i : String} {t : AuditEventType}
    (h : terminalEvent es' i = some t) : terminalEvent (es ++ es') i = some t := by
  rw [terminalEvent, Option.map_eq_some_iff] at h ⊢
  obtain ⟨e, he, ht⟩ := h
  exact ⟨e, by rw [List.filter_append, List.getLast?_append, he]; rfl, ht⟩

/-- Events about other actions end none of this one. -/
theorem terminalEvent_append_other {es es' : List AuditEvent} {i : String}
    (h : ∀ e ∈ es', e.actionId ≠ i) : terminalEvent (es ++ es') i = terminalEvent es i := by
  have hnil : es'.filter (fun e => e.actionId == i && e.eventType.isTerminal) = [] := by
    refine List.filter_eq_nil_iff.mpr fun e he hpass => ?_
    rw [Bool.and_eq_true, beq_iff_eq] at hpass
    exact h e he hpass.1
  rw [terminalEvent, List.filter_append, hnil, List.append_nil, terminalEvent]

theorem executorLoop_rounds (reg : ToolRegistry σ) (p : Principal) (approved : List String)
    (policy : ℕ → PolicyStore) (as : List ProposedAction) (i : ℕ) (st : RunState σ)
    (hids : (as.map (·.actionId)).Nodup) :
    ∃ new, (executorLoop reg p approved policy i as st).2.audit.events = st.audit.events ++ new ∧
      RoundsEnd reg p policy i as (executorLoop reg p approved policy i as st).1 new := by
  obtain ⟨new, hnew, hacc⟩ := executorLoop_account reg p approved policy as i st hids
  refine ⟨new, hnew, hacc, ?_⟩
  clear hacc
  induction as generalizing i st new with
  | nil => simp
  | cons a as ih =>
    rw [List.map_cons, List.nodup_cons] at hids
    have hother : ∀ b ∈ as, b.actionId ≠ a.actionId := fun b hb heq =>
      hids.1 (heq ▸ List.mem_map_of_mem hb)
    obtain ⟨e, hevents, heid, hends, hresult⟩ :=
      executorAction_ends reg p approved (policy i) a st
    obtain ⟨rest, hrest, hacc⟩ := executorLoop_account reg p approved policy as (i + 1)
      (executorAction reg p approved (policy i) a st).2 hids.2
    have hloop := ih (i + 1) _ hids.2 rest hrest
    simp only [executorLoop] at hnew ⊢
    obtain rfl : new = [e] ++ rest := by
      rw [hrest, hevents, List.append_assoc] at hnew
      exact (List.append_cancel_left hnew).symm
    intro k b hb
    cases k with
    | zero =>
      obtain rfl : a = b := by simpa using hb
      refine ⟨_, _, hends, ?_, ?_⟩
      · have hnone : (executorLoop reg p approved policy (i + 1) as
            (executorAction reg p approved (policy i) a st).2).1.filter
              (·.actionId == a.actionId) = [] := by
          refine List.filter_eq_nil_iff.mpr fun result hmem hid => hids.1 ?_
          rw [← beq_iff_eq.mp hid]
          exact hacc.ids hmem
        rw [List.filter_append, hnone, List.append_nil, List.filter_eq_self]
        intro result hmem
        exact beq_iff_eq.mpr (hresult result (Option.mem_toList.mp hmem))
      · have hsilent : ∀ e' ∈ rest, e'.actionId ≠ a.actionId := by
          intro e' he' heq
          exact hids.1 (heq ▸ hacc.about e' he')
        rw [terminalEvent_append_other hsilent, terminalEvent]
        simp [heid, hends.isTerminal]
    | succ k =>
      have hb' : as[k]? = some b := by simpa using hb
      have hne := hother b (List.mem_of_getElem? hb')
      obtain ⟨result, t, hround, hfilter, hterminal⟩ := hloop k b hb'
      refine ⟨result, t, ?_, ?_, terminalEvent_append hterminal⟩
      · rwa [show i + 1 + k = i + (k + 1) by omega] at hround
      · have hnone : (executorAction reg p approved (policy i) a st).1.toList.filter
            (·.actionId == b.actionId) = [] := by
          refine List.filter_eq_nil_iff.mpr fun result hmem hid => hne ?_
          rw [← beq_iff_eq.mp hid]
          exact hresult result (Option.mem_toList.mp hmem)
        rw [List.filter_append, hnone, List.nil_append, hfilter]

/-! ### The parts of a turn -/

/-- The events of a turn by the node they come from: the planner ends no action with a result, the approval
    node logs every rejection it keeps, and the executor's rounds end the surfaced actions. -/
structure TurnParts (g : AgentGraph σ) (turn : Turn σ) (planned decided executed : List AuditEvent) :
    Prop where
  events : turn.events = planned ++ decided ++ executed
  unrun : ∀ e ∈ planned ++ decided, e.eventType.hasResult = false
  rejections : ∀ i ∈ turn.state.rejectedActionIds, ∃ e ∈ decided, e.actionId = i ∧ e.eventType = .rejected
  rounds : RoundsEnd g.registry (getCurrentPrincipal turn.state) g.executorPolicy 0
    turn.state.proposedActions turn.state.actionResults executed

theorem rejected_of_plannerNode {planFn : PlanFn σ} {kg : KnowledgeGraph} {policy : ℕ → PolicyStore}
    {state state' : AgentState} {st st' : RunState σ}
    (h : plannerNode planFn reg kg policy state st = .ok (state', st')) :
    state'.rejectedActionIds = state.rejectedActionIds := by
  unfold plannerNode at h
  obtain ⟨context, -, h⟩ := Fallible.bind_eq_ok.mp h
  split at h
  next => cases h
  next =>
    cases h
    rfl

/-- The approval node logs its rejections. -/
theorem approvalNode_decides {order : SetOrder} {raw : Json} {state state' : AgentState}
    {audit audit' : AuditLog} (h : approvalNode order raw state audit = .ok (state', audit')) :
    ∃ new, audit'.events = audit.events ++ new ∧
      (∀ e ∈ new, e.eventType.hasResult = false) ∧
      ∀ i ∈ state'.rejectedActionIds, ∃ e ∈ new, e.actionId = i ∧ e.eventType = .rejected := by
  simp only [approvalNode, Fallible.bind_eq_ok, Fallible.pure_eq_ok, Prod.mk.injEq] at h
  obtain ⟨ds, -, rfl, rfl⟩ := h
  obtain ⟨new, hnew, hmap, htypes⟩ := events_foldl_decided ds audit
  refine ⟨new, hnew, fun e he => ?_, fun i hi => ?_⟩
  · rcases htypes e he with ht | ht <;> rw [ht] <;> rfl
  · obtain ⟨d, hd, rfl⟩ := List.mem_map.mp hi
    obtain ⟨hd, hrejected⟩ := List.mem_filter.mp hd
    rw [← hmap] at hd
    obtain ⟨e, he, rfl⟩ := List.mem_map.mp hd
    refine ⟨e, he, rfl, (htypes e he).resolve_left fun happroved => ?_⟩
    simp [recordedDecision, happroved] at hrejected

/-- The executor's rounds are the last part. -/
theorem execute_parts (g : AgentGraph σ) {state : AgentState} (st : RunState σ)
    {planned decided : List AuditEvent} (hids : (state.proposedActions.map (·.actionId)).Nodup)
    (hunrun : ∀ e ∈ planned ++ decided, e.eventType.hasResult = false)
    (hrejections : ∀ i ∈ state.rejectedActionIds, ∃ e ∈ decided, e.actionId = i ∧ e.eventType = .rejected) :
    ∃ executed, TurnParts g (g.execute state st (planned ++ decided)) planned decided executed := by
  obtain ⟨new, hnew, hrounds⟩ := executorLoop_rounds g.registry (getCurrentPrincipal state)
    state.approvedActionIds g.executorPolicy state.proposedActions 0 (g.others .executor st) hids
  exact ⟨new, congrArg (planned ++ decided ++ ·) (newEvents_append hnew), hunrun, hrejections, hrounds⟩

theorem plannerLoop_unrun (reg : ToolRegistry σ) (principal : Principal) (policy : ℕ → PolicyStore)
    (as : List ProposedAction) (i : ℕ) (audit : AuditLog) :
    ∃ new, (plannerLoop reg principal policy i as audit).2.events = audit.events ++ new ∧
      ∀ e ∈ new, e.eventType.hasResult = false := by
  induction as generalizing i audit with
  | nil => exact ⟨[], by simp [plannerLoop], by simp⟩
  | cons a as ih =>
    obtain ⟨new, hnew, hunrun, -⟩ := plannerAction_account reg principal (policy i) a audit
    obtain ⟨rest, hrest, hunrunRest⟩ := ih (i + 1) (plannerAction reg principal (policy i) a audit).2
    simp only [plannerLoop]
    refine ⟨new ++ rest, by rw [hrest, hnew, List.append_assoc], fun e he => ?_⟩
    rcases List.mem_append.mp he with he | he
    · exact (hunrun e he).2
    · exact hunrunRest e he

/-- A turn that completes has these parts. -/
theorem invoke_parts {g : AgentGraph σ} {raw : Json} {state : AgentState} {st : RunState σ} {turn : Turn σ}
    (hstate : state.rejectedActionIds = []) (hresults : state.actionResults = [])
    (hturn : g.invoke raw state st = .ok turn)
    (hids : (turn.state.proposedActions.map (·.actionId)).Nodup) :
    ∃ planned decided executed, TurnParts g turn planned decided executed := by
  simp only [AgentGraph.invoke, Fallible.bind_eq_ok] at hturn
  obtain ⟨⟨state', after⟩, hnode, hturn⟩ := hturn
  have hrejected : state'.rejectedActionIds = [] := (rejected_of_plannerNode hnode).trans hstate
  obtain ⟨plan, world, -, -, -, haudit, hresults'⟩ := plannerNode_eq_ok hnode
  obtain ⟨planned, hplanned, hunrun⟩ := plannerLoop_unrun g.registry (getCurrentPrincipal state)
    g.plannerPolicy plan 0 st.audit
  rw [← haudit] at hplanned
  simp only [newEvents_append hplanned] at hturn
  split at hturn
  next hroute =>
    -- nothing was surfaced, and the results of the new state are empty
    cases hturn
    have hnone : state'.proposedActions = [] := by
      simp only [routeAfterPlanner] at hroute
      split at hroute
      · cases hroute
      · split at hroute
        next hempty => exact List.isEmpty_iff.mp hempty
        next => cases hroute
    refine ⟨planned, [], [], by simp, by simpa using hunrun, by simp [hrejected], ?_⟩
    rw [hnone, hresults', hresults]
    exact ⟨⟨by simp, by simp, rfl⟩, by simp⟩
  next =>
    cases hturn
    have hnone : ∀ i ∈ state'.rejectedActionIds,
        ∃ e ∈ ([] : List AuditEvent), e.actionId = i ∧ e.eventType = .rejected := by
      simp [hrejected]
    have hparts : ∃ executed, TurnParts g (g.execute state' after (planned ++ [])) planned [] executed :=
      execute_parts g after hids (by simpa using hunrun) hnone
    rw [List.append_nil] at hparts
    exact ⟨planned, [], hparts⟩
  next =>
    simp only [Fallible.bind_eq_ok, Fallible.pure_eq_ok] at hturn
    obtain ⟨⟨state'', audit⟩, happ, rfl⟩ := hturn
    obtain ⟨decided, hdecided, hundecided, hrejections⟩ := approvalNode_decides happ
    rw [newEvents_append hdecided] at hids ⊢
    refine ⟨planned, decided, execute_parts g _ hids (fun e he => ?_) hrejections⟩
    rcases List.mem_append.mp he with he | he
    · exact hunrun e he
    · exact hundecided e he

/-! ### When the summary agrees with the log -/

/-- The result found by its id is the only one of the action. -/
theorem get?_resultsById {results : List ActionResult} {i : String} {result : Option ActionResult}
    (h : results.filter (·.actionId == i) = result.toList) : (resultsById results).get? i = result := by
  have hfind : results.reverse.find? (fun r => decide (r.actionId = i)) = result := by
    rw [← List.head?_filter, List.filter_reverse, List.head?_reverse]
    have hsame : (fun r : ActionResult => decide (r.actionId = i)) = (·.actionId == i) := by
      funext r
      rfl
    rw [hsame, h]
    cases result <;> rfl
  rw [resultsById, Dict.get?_setAll, hfind]
  cases result <;> rfl

theorem mem_results_iff {results : List ActionResult} {i : String} {result : Option ActionResult}
    (h : results.filter (·.actionId == i) = result.toList) (r : ActionResult) :
    r ∈ results ∧ r.actionId = i ↔ result = some r := by
  rw [← Option.mem_toList.trans Option.mem_def, ← h, List.mem_filter, beq_iff_eq]

/-- The labels that follow from a result tell how the round ended, unless the round denied an action that
    was not rejected or ran a tool that answers like a replay. -/
theorem RoundEnds.label_iff {policy : PolicyStore} {a : ProposedAction} {result : Option ActionResult}
    {t : AuditEventType} (h : RoundEnds reg p policy a result t) (isRejected : Bool) :
    ((labelOf result isRejected = .executed ↔ t = .executed) ∧
      (labelOf result isRejected = .failed ↔ t = .failed) ∧
      (labelOf result isRejected = .replaySkipped ↔ t = .replaySkipped) ∧
      (labelOf result isRejected = .skipped → t = .skipped)) ↔
      (isRejected = false → StillPermitted reg p policy a) ∧
        ∀ r, result = some r → t ≠ .replaySkipped → replayMarked r.output = false := by
  cases h with
  | denied hdenied => cases isRejected <;> simp [labelOf, hdenied]
  | skipped hpermitted => cases isRejected <;> simp [labelOf, hpermitted]
  | replayed hpermitted hmarked => simp [labelOf, hpermitted, hmarked]
  | @executed r hpermitted hok =>
    cases hm : replayMarked r.output <;> simp [labelOf, hpermitted, hok, hm]
  | failed hpermitted hok hmarked => simp [labelOf, hpermitted, hok, hmarked]

section agree
variable {g : AgentGraph σ} {turn : Turn σ} {planned decided executed : List AuditEvent}

/-- The last event that ends a surfaced action is the executor's. -/
theorem TurnParts.terminalEvent_eq (h : TurnParts g turn planned decided executed) {i : String}
    {t : AuditEventType} (ht : terminalEvent executed i = some t) : terminalEvent turn.events i = some t := by
  rw [h.events]
  exact terminalEvent_append ht

/-- An action with a result in the log has one in the state. -/
theorem TurnParts.result_of_resultIn (h : TurnParts g turn planned decided executed) {i : String}
    (hres : resultIn turn.events i = true) : ∃ r ∈ turn.state.actionResults, r.actionId = i := by
  have hunrun : resultIn (planned ++ decided) i = false := by
    refine List.any_eq_false.mpr fun e he => ?_
    simp [h.unrun e he]
  rw [h.events, resultIn_append, hunrun, Bool.false_or] at hres
  obtain ⟨e, he, hpass⟩ := List.any_eq_true.mp hres
  rw [Bool.and_eq_true, beq_iff_eq] at hpass
  obtain ⟨a, ha, haid⟩ := List.mem_map.mp (h.rounds.account.about e he)
  have haid : a.actionId = i := haid.trans hpass.1
  have hid : i ∈ turn.state.actionResults.map (·.actionId) := by
    rw [h.rounds.account.results]
    exact List.mem_map.mpr ⟨a, List.mem_filter.mpr ⟨ha, by rw [haid]; exact hres⟩, haid⟩
  exact List.mem_map.mp hid

/-- The lines of the summary are those of the actions if none of them breaks, and only then. -/
theorem lines_summary_iff (hne : turn.state.proposedActions ≠ []) :
    Text.lines turn.summary = "Here is what I did:" :: turn.state.proposedActions.map turn.line ↔
      ∀ a ∈ turn.state.proposedActions, '\n' ∉ (turn.line a).toList := by
  have hempty : turn.state.proposedActions.isEmpty = false := by simpa using hne
  have hjoin : turn.summary =
      "\n".intercalate ("Here is what I did:" :: turn.state.proposedActions.map turn.line) := by
    rw [String.intercalate_cons_of_ne_nil (by simpa using hne), Turn.summary, summarize, hempty]
    rfl
  rw [hjoin, lines_intercalate_iff (List.cons_ne_nil _ _), List.forall_mem_cons, List.forall_mem_map]
  exact and_iff_right (by decide)

/-- The labels of one action agree with the log exactly under the conditions on it. -/
theorem TurnParts.label_iff (h : TurnParts g turn planned decided executed) {k : ℕ} {a : ProposedAction}
    (hk : turn.state.proposedActions[k]? = some a) :
    ((Labelled (turn.line a) .executed ↔ terminalEvent turn.events a.actionId = some .executed) ∧
      (Labelled (turn.line a) .failed ↔ terminalEvent turn.events a.actionId = some .failed) ∧
      (Labelled (turn.line a) .replaySkipped ↔
        terminalEvent turn.events a.actionId = some .replaySkipped) ∧
      (Labelled (turn.line a) .skipped → terminalEvent turn.events a.actionId = some .skipped)) ↔
      (a.actionId ∉ turn.state.rejectedActionIds →
        StillPermitted g.registry (getCurrentPrincipal turn.state) (g.executorPolicy k) a) ∧
      ∀ r ∈ turn.state.actionResults, r.actionId = a.actionId →
        terminalEvent turn.events r.actionId ≠ some .replaySkipped → replayMarked r.output = false := by
  obtain ⟨result, t, hround, hfilter, ht⟩ := h.rounds.ends k a hk
  have hterminal := h.terminalEvent_eq ht
  have hlabel : ∀ label, Labelled (turn.line a) label ↔
      labelOf result (turn.state.rejectedActionIds.contains a.actionId) = label :=
    labelled_iff (get?_resultsById hfilter)
  have hiff := hround.label_iff (turn.state.rejectedActionIds.contains a.actionId)
  simp only [hlabel, hterminal, Option.some.injEq, hiff, Nat.zero_add]
  refine and_congr (by simp) (forall_congr' fun r => ?_)
  rw [← mem_results_iff hfilter r, and_imp]
  refine imp_congr_right fun _ => imp_congr_right fun hid => ?_
  rw [hid, hterminal, ne_eq, ne_eq, Option.some.injEq]

/-- An action is labelled rejected only where the log has its rejection, and nothing that was run. -/
theorem TurnParts.rejected_of_labelled (h : TurnParts g turn planned decided executed) {k : ℕ}
    {a : ProposedAction} (hk : turn.state.proposedActions[k]? = some a)
    (hlabelled : Labelled (turn.line a) .rejected) :
    (∃ e ∈ turn.events, e.actionId = a.actionId ∧ e.eventType = .rejected) ∧
      resultIn turn.events a.actionId = false := by
  obtain ⟨result, t, hround, hfilter, -⟩ := h.rounds.ends k a hk
  rw [Turn.line, labelled_iff (get?_resultsById hfilter)] at hlabelled
  cases result with
  | some r =>
    simp only [labelOf] at hlabelled
    split at hlabelled
    · cases hlabelled
    · split at hlabelled <;> cases hlabelled
  | none =>
    refine ⟨?_, Bool.eq_false_iff.mpr fun hres => ?_⟩
    · have hid : a.actionId ∈ turn.state.rejectedActionIds := by
        by_contra hnot
        simp [labelOf, hnot] at hlabelled
      obtain ⟨e, he, hrejection⟩ := h.rejections a.actionId hid
      exact ⟨e, by simp [h.events, he], hrejection⟩
    · obtain ⟨r, hr⟩ := h.result_of_resultIn hres
      cases (mem_results_iff hfilter r).mp hr

theorem TurnParts.unbroken_iff (h : TurnParts g turn planned decided executed) {k : ℕ} {a : ProposedAction}
    (hk : turn.state.proposedActions[k]? = some a) :
    '\n' ∉ (turn.line a).toList ↔ '\n' ∉ a.tool.toList ∧
      ∀ r ∈ turn.state.actionResults, r.actionId = a.actionId → replayMarked r.output = false →
        '\n' ∉ r.printed.toList := by
  obtain ⟨result, t, -, hfilter, -⟩ := h.rounds.ends k a hk
  rw [Turn.line, newline_mem_summaryLine (get?_resultsById hfilter)]
  refine and_congr_right fun _ => forall_congr' fun r => ?_
  rw [← mem_results_iff hfilter r, and_imp]

/-- The summary of a turn in these parts. -/
theorem TurnParts.agrees_iff (h : TurnParts g turn planned decided executed) :
    SummaryAgrees turn ↔ SummaryReadable g turn := by
  constructor
  · intro hagrees
    have hlabels : ∀ k a, turn.state.proposedActions[k]? = some a → _ := fun k a hk =>
      have ha := List.mem_of_getElem? hk
      (h.label_iff hk).mp ⟨hagrees.executed a ha, hagrees.failed a ha, hagrees.replaySkipped a ha,
        hagrees.skipped a ha⟩
    refine ⟨fun k a hk => (hlabels k a hk).1, fun r hr => ?_, fun a ha => ?_⟩
    · obtain ⟨a, ha, hid⟩ := List.mem_map.mp (h.rounds.account.ids hr)
      obtain ⟨k, hk⟩ := List.mem_iff_getElem?.mp ha
      exact (hlabels k a hk).2 r hr hid.symm
    · obtain ⟨k, hk⟩ := List.mem_iff_getElem?.mp ha
      have hne := List.ne_nil_of_mem ha
      exact (h.unbroken_iff hk).mp ((lines_summary_iff hne).mp (hagrees.lines hne) a ha)
  · intro hreadable
    have hlabels : ∀ a ∈ turn.state.proposedActions, _ := fun a ha =>
      have ⟨k, hk⟩ := List.mem_iff_getElem?.mp ha
      (h.label_iff hk).mpr ⟨hreadable.permitted k a hk, fun r hr _ => hreadable.unmarked r hr⟩
    refine ⟨fun hne => ?_, fun a ha => (hlabels a ha).1, fun a ha => (hlabels a ha).2.1,
      fun a ha => (hlabels a ha).2.2.1, fun a ha => ?_, fun a ha => (hlabels a ha).2.2.2⟩
    · refine (lines_summary_iff hne).mpr fun a ha => ?_
      obtain ⟨k, hk⟩ := List.mem_iff_getElem?.mp ha
      exact (h.unbroken_iff hk).mpr (hreadable.unbroken a ha)
    · obtain ⟨k, hk⟩ := List.mem_iff_getElem?.mp ha
      exact h.rejected_of_labelled hk

end agree

/-- The summary of a turn agrees with the log of the turn exactly when nothing happened in it that the
    summary has no words for. -/
theorem summaryAgrees_iff (g : AgentGraph σ) (raw : Json) (thread : AgentState) (userMessage : String)
    (principal : Option Principal) (st : RunState σ) (turn : Turn σ)
    (hturn : g.invoke raw (thread.update (initialState userMessage principal)) st = .ok turn)
    (hids : (turn.state.proposedActions.map (·.actionId)).Nodup) :
    SummaryAgrees turn ↔ SummaryReadable g turn := by
  obtain ⟨planned, decided, executed, hparts⟩ := invoke_parts rfl rfl hturn hids
  exact hparts.agrees_iff

/-! ### One approval, one revocation -/

theorem summaryAgrees_counting : ∃ turn, countingTurn = .ok turn ∧ SummaryAgrees turn := by
  have hiff : ∀ turn, countingTurn = .ok turn → (turn.state.proposedActions.map (·.actionId)).Nodup →
      (SummaryAgrees turn ↔ SummaryReadable countingGraph turn) :=
    fun turn => summaryAgrees_iff countingGraph _ _ _ _ _ turn
  refine ⟨_, rfl, (hiff _ rfl (by decide)).mpr ⟨?_, ?_, ?_⟩⟩
  · rintro k a hk -
    rcases k with _ | _ | k
    · obtain rfl := Option.some.inj hk
      exact ⟨some "tool:count", rfl, by decide⟩
    · obtain rfl := Option.some.inj hk
      exact ⟨some "tool:count", rfl, by decide⟩
    · cases hk
  · intro result hresult _
    rcases List.mem_singleton.mp hresult with rfl
    rfl
  · intro a ha
    refine ⟨?_, fun result hresult _ _ => ?_⟩
    · rcases List.mem_pair.mp ha with rfl | rfl <;> decide
    · rcases List.mem_singleton.mp hresult with rfl
      decide

-- the approved action ran, as the first in its world, and the other was skipped
example : countingTurn.toOption.map Turn.summary = some
    "Here is what I did:\n- Executed: count -> 0\n- Skipped (not approved): count (send)" := by decide

/-- The same turn, but its principal loses the permission while it is paused. -/
def revokedTurn : Except PyError (Turn ℕ) :=
  { countingGraph with executorPolicy := fun _ => inMemoryPolicyStore Dict.empty }.invoke
    (.obj [("a1", .bool true), ("a2", .bool true)])
    (({} : AgentState).update (initialState "count" (some { userId := "alice", roles := ["admin"] })))
    ⟨freshLog, 0, []⟩

/-- Both actions were approved and then denied, and the summary says that neither was approved. -/
theorem not_summaryAgrees_revoked : ∃ turn, revokedTurn = .ok turn ∧ ¬SummaryAgrees turn := by
  refine ⟨_, rfl, fun h => ?_⟩
  have hskipped := h.skipped (countingAction "a1" .send) List.mem_cons_self
  exact absurd (hskipped (by decide)) (by decide)

end Atlas
