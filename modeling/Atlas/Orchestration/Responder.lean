import Atlas.Lib.Selection
import Atlas.Orchestration.Summary
import Atlas.Persistence.Backends

/-! The responder: confidence, sources and text of an answer. A source is cited for a tool by the output of
    a success, and for knowledge by an entity the planner had retrieved; repeats of a key are dropped. A
    replay and a failure have no output to cite, so a cited tool has an `EXECUTED` in the log of the turn,
    and the confidence counts what the log says was run or replayed (`answer_grounded`). -/

namespace Atlas

variable {σ : Type}

/-! ### Sources and confidence -/

inductive SourceKind where | tool | knowledge
  deriving DecidableEq, Repr

/-- Structured provenance for part of an answer. -/
structure Source where
  kind : SourceKind
  ref : String
  label : String := ""
  deriving DecidableEq, Repr

def Source.key (source : Source) : SourceKind × String := (source.kind, source.ref)

/-- `_add`: a source whose key has been seen is dropped. -/
def addSource (sources : List Source) (source : Source) : List Source :=
  if sources.any (fun seen => source.key == seen.key) then sources else sources ++ [source]

/-- What a result cites: a success with a dict for output and something true under `source`. -/
def toolSource (result : ActionResult) : Option Source :=
  match result.ok, result.output with
  | true, .obj fields =>
    let label := (Json.field? "source" fields).getD .null
    if label.truthy then some ⟨.tool, result.tool, label.pyStr⟩ else none
  | _, _ => none

def knowledgeSource (entity : Entity) : Source := ⟨.knowledge, entity.id, entity.name⟩

/-- All citations of a turn, repeats included. -/
def citations (results : List ActionResult) (kgContext : List Entity) : List Source :=
  results.filterMap toolSource ++ kgContext.map knowledgeSource

/-- `collect_sources`. -/
def collectSources (results : List ActionResult) (kgContext : List Entity) : List Source :=
  (citations results kgContext).foldl addSource []

/-- A score before it is rounded: the share of successes, or one of the two constants for an answer
    without actions. -/
inductive Confidence where
  | fraction (ok total : ℕ)
  | grounded
  | ungrounded
  deriving DecidableEq, Repr

/-- `score_confidence`. -/
def scoreConfidence (results : List ActionResult) (kgContext : List Entity) : Confidence :=
  if !results.isEmpty then .fraction (results.countP (·.ok)) results.length
  else if !kgContext.isEmpty then .grounded
  else .ungrounded

/-! ### The node -/

/-- `_facts_block`. -/
def factsBlock (summary : String) (sources : List Source) : String :=
  "\n".intercalate (summary :: if sources.isEmpty then [] else "Sources used:" :: sources.map fun source =>
    "- " ++ if source.label = "" then source.ref else source.label)

/-- A narrator: request and facts to prose. It may consult the world and may raise. -/
abbrev Narrator (σ : Type) := String → String → σ → Except PyError String × σ

/-- What the responder writes into the state. -/
structure Answer where
  content : String
  confidence : Confidence
  sources : List Source

/-- `responder_node`; a narrator that raises leaves the deterministic summary. -/
def responderNode (narrator : Option (Narrator σ)) (state : AgentState) (world : σ) : Answer × σ :=
  let confidence := scoreConfidence state.actionResults state.kgContext
  let sources := collectSources state.actionResults state.kgContext
  let summary := summarize state.proposedActions state.actionResults state.rejectedActionIds
  match narrator with
  | none => (⟨summary, confidence, sources⟩, world)
  | some respond =>
    match respond (lastUserText state.messages) (factsBlock summary sources) world with
    | (.ok content, world) => (⟨content, confidence, sources⟩, world)
    | (.error _, world) => (⟨summary, confidence, sources⟩, world)

/-! ### First citations -/

theorem foldl_addSource_eq_collect {cap : ℕ} : ∀ (sources acc : List Source),
    acc.length + sources.length ≤ cap →
    sources.foldl addSource acc = Selection.collect (fun x y => x.key == y.key) cap sources acc
  | [], _, _ => rfl
  | source :: sources, acc, hcap => by
      rw [List.length_cons] at hcap
      rw [List.foldl_cons, Selection.collect, if_neg (by omega), addSource]
      split
      · exact foldl_addSource_eq_collect sources acc (by omega)
      · refine foldl_addSource_eq_collect sources _ ?_
        rw [List.length_append, List.length_singleton]
        omega

/-- The sources are the first citations of each key. -/
theorem collectSources_eq (results : List ActionResult) (kgContext : List Entity) :
    collectSources results kgContext =
      (citations results kgContext).eraseDupsBy fun x y => x.key == y.key := by
  rw [collectSources, foldl_addSource_eq_collect _ [] (Nat.zero_add _).le, Selection.collect_nil,
    List.take_of_length_le (Selection.eraseDupsBy_sublist _).length_le]

theorem nodup_collectSources (results : List ActionResult) (kgContext : List Entity) :
    ((collectSources results kgContext).map Source.key).Nodup := by
  rw [collectSources_eq]
  exact Selection.nodup_map_eraseDupsBy Source.key _

theorem mem_citations_of_collectSources {results : List ActionResult} {kgContext : List Entity}
    {source : Source} (h : source ∈ collectSources results kgContext) :
    source ∈ citations results kgContext := by
  rw [collectSources_eq] at h
  exact (Selection.eraseDupsBy_sublist _).subset h

theorem exists_source_of_citation {results : List ActionResult} {kgContext : List Entity}
    {source : Source} (h : source ∈ citations results kgContext) :
    ∃ first ∈ collectSources results kgContext, first.key = source.key := by
  rw [collectSources_eq]
  exact Selection.exists_mem_eraseDupsBy_key Source.key h

/-! ### What a result reports -/

/-- The kinds of event that a result reports as a success. -/
def AuditEventType.isSuccess : AuditEventType → Bool
  | executed | replaySkipped => true
  | proposed | approved | rejected | failed | skipped | denied | ingested => false

/-- A result that cites something cites its action's tool. -/
theorem kind_of_toolSource {result : ActionResult} {source : Source} (h : toolSource result = some source) :
    source.kind = .tool ∧ source.ref = result.tool ∧ result.ok = true := by
  rw [toolSource] at h
  split at h
  next fields hok hout =>
    simp only at h
    split at h
    · cases h
      exact ⟨rfl, rfl, hok⟩
    · cases h
  next => cases h

theorem tool_execute (reg : ToolRegistry σ) (a : ProposedAction) (p : Principal) (w : σ) :
    (reg.execute a p w).1.tool = a.tool := by
  rw [ToolRegistry.execute]
  split
  · rfl
  · split <;> rfl

/-- A replay has nothing to cite. -/
theorem toolSource_replayResult (a : ProposedAction) (audit : AuditLog) :
    toolSource (replayResult a audit) = none := by
  simp only [replayResult, toolSource]
  split
  next fields _ hout =>
    split at hout
    · cases hout; rfl
    · cases hout; rfl
  next => rfl

/-- What one result says about the event that ends its action. -/
structure Reports (a : ProposedAction) (result : Option ActionResult) (e : AuditEvent) : Prop where
  about : e.actionId = a.actionId
  returned : result.toList.length = e.eventType.hasResult.toNat
  success : result.toList.countP (·.ok) = e.eventType.isSuccess.toNat
  cited : ∀ r, result = some r → ∀ source, toolSource r = some source →
    e.eventType = .executed ∧ source.ref = a.tool

section reports
variable (reg : ToolRegistry σ) (p : Principal)

theorem executeGuarded_reports (a : ProposedAction) (extra : Option AuditToolContext) (st : RunState σ) :
    ∃ e, (executeGuarded reg a p extra st).2.audit.events = st.audit.events ++ [e] ∧
      Reports a (some (executeGuarded reg a p extra st).1) e := by
  rw [executeGuarded]
  split
  next =>
    refine ⟨_, rfl, rfl, rfl, rfl, ?_⟩
    rintro r ⟨⟩ source hsource
    rw [toolSource_replayResult] at hsource
    cases hsource
  next =>
    have hid := ToolRegistry.actionId_execute reg a p st.world
    have hcited : ∀ source, toolSource (reg.execute a p st.world).1 = some source →
        (reg.execute a p st.world).1.ok = true ∧ source.ref = a.tool := by
      intro source hsource
      obtain ⟨-, href, hok⟩ := kind_of_toolSource hsource
      exact ⟨hok, href.trans (tool_execute reg a p st.world)⟩
    simp only [recordOutcome]
    split
    next hok =>
      refine ⟨_, rfl, hid, rfl, by simp [hok, AuditEventType.isSuccess], ?_⟩
      rintro r ⟨⟩ source hsource
      exact ⟨rfl, (hcited source hsource).2⟩
    next hok =>
      refine ⟨_, rfl, hid, rfl, by simp [hok, AuditEventType.isSuccess], ?_⟩
      rintro r ⟨⟩ source hsource
      exact absurd (hcited source hsource).1 hok

theorem executorAction_reports (approved : List String) (policy : PolicyStore) (a : ProposedAction)
    (st : RunState σ) :
    ∃ e, (executorAction reg p approved policy a st).2.audit.events = st.audit.events ++ [e] ∧
      Reports a (executorAction reg p approved policy a st).1 e := by
  rcases executorAction_cases reg p approved policy a st with
    ⟨-, audit, heq, e, rfl, hid, ht⟩ | ⟨-, extra, heq⟩
  · rw [heq]
    refine ⟨e, rfl, hid, ?_, ?_, by simp⟩
    · rcases ht with ht | ht <;> rw [ht] <;> rfl
    · rcases ht with ht | ht <;> rw [ht] <;> rfl
  · rw [heq]
    exact executeGuarded_reports reg p a extra st

/-- What the results of the executor's loop say about its events. -/
structure LoopReports (as : List ProposedAction) (results : List ActionResult) (events : List AuditEvent) :
    Prop where
  returned : results.length = events.countP (·.eventType.hasResult)
  success : results.countP (·.ok) = events.countP (·.eventType.isSuccess)
  cited : ∀ r ∈ results, ∀ source, toolSource r = some source → ∃ a ∈ as, source.ref = a.tool ∧
    ∃ e ∈ events, e.actionId = a.actionId ∧ e.eventType = .executed

theorem executorLoop_reports (approved : List String) (policy : ℕ → PolicyStore)
    (as : List ProposedAction) (i : ℕ) (st : RunState σ) :
    ∃ new, (executorLoop reg p approved policy i as st).2.audit.events = st.audit.events ++ new ∧
      LoopReports as (executorLoop reg p approved policy i as st).1 new := by
  induction as generalizing i st with
  | nil => exact ⟨[], by simp [executorLoop], rfl, rfl, by simp [executorLoop]⟩
  | cons a as ih =>
    obtain ⟨e, hevents, hreport⟩ := executorAction_reports reg p approved (policy i) a st
    obtain ⟨rest, hrest, hreports⟩ := ih (i + 1) (executorAction reg p approved (policy i) a st).2
    simp only [executorLoop]
    refine ⟨e :: rest, by rw [hrest, hevents, List.append_assoc]; rfl, ?_, ?_, ?_⟩
    · rw [List.length_append, hreport.returned, hreports.returned, List.countP_cons, Nat.add_comm]
      cases e.eventType.hasResult <;> rfl
    · rw [List.countP_append, hreport.success, hreports.success, List.countP_cons, Nat.add_comm]
      cases e.eventType.isSuccess <;> rfl
    · intro r hr source hsource
      rcases List.mem_append.mp hr with hr | hr
      · obtain ⟨ht, href⟩ := hreport.cited r (Option.mem_toList.mp hr) source hsource
        exact ⟨a, List.mem_cons_self, href, e, List.mem_cons_self, hreport.about, ht⟩
      · obtain ⟨b, hb, href, e', he', hid, ht⟩ := hreports.cited r hr source hsource
        exact ⟨b, List.mem_cons_of_mem _ hb, href, e', List.mem_cons_of_mem _ he', hid, ht⟩

end reports

/-! ### The whole turn -/

/-- The state after the executor keeps what the planner had put into it. -/
theorem execute_reports (g : AgentGraph σ) (state : AgentState) (st : RunState σ) (events : List AuditEvent) :
    ∃ executed, (g.execute state st events).events = events ++ executed ∧
      (g.execute state st events).state.kgContext = state.kgContext ∧
      (g.execute state st events).state.proposedActions = state.proposedActions ∧
      LoopReports state.proposedActions (g.execute state st events).state.actionResults executed := by
  obtain ⟨new, hnew, hreports⟩ := executorLoop_reports g.registry (getCurrentPrincipal state)
    state.approvedActionIds g.executorPolicy state.proposedActions 0 (g.others .executor st)
  exact ⟨new, congrArg (events ++ ·) (newEvents_append hnew), rfl, rfl, hreports⟩

/-- The planner writes two channels, one of them with what its query returned. -/
theorem state_of_plannerNode {planFn : PlanFn σ} {reg : ToolRegistry σ} {kg : KnowledgeGraph}
    {policy : ℕ → PolicyStore} {state state' : AgentState} {st st' : RunState σ}
    (h : plannerNode planFn reg kg policy state st = .ok (state', st')) :
    state' = { state with
      proposedActions := state'.proposedActions
      kgContext := state'.kgContext } ∧
    kg.query (some (getCurrentPrincipal state)) (lastUserText state.messages) 5 = .ok state'.kgContext := by
  unfold plannerNode at h
  obtain ⟨context, hquery, h⟩ := Fallible.bind_eq_ok.mp h
  split at h
  next => cases h
  next =>
    simp only [Except.ok.injEq, Prod.mk.injEq] at h
    obtain ⟨rfl, -⟩ := h
    exact ⟨rfl, hquery⟩

theorem kgContext_of_approvalNode {order : SetOrder} {raw : Json} {state state' : AgentState}
    {audit audit' : AuditLog} (h : approvalNode order raw state audit = .ok (state', audit')) :
    state'.kgContext = state.kgContext := by
  simp only [approvalNode, Fallible.bind_eq_ok, Fallible.pure_eq_ok, Prod.mk.injEq] at h
  obtain ⟨ds, -, rfl, -⟩ := h
  rfl

/-- Events before the executor's report nothing. -/
theorem LoopReports.of_prefix {as : List ProposedAction} {results : List ActionResult}
    {before executed : List AuditEvent} (h : LoopReports as results executed)
    (hunrun : ∀ e ∈ before, e.eventType.hasResult = false) : LoopReports as results (before ++ executed) := by
  have hnone : before.countP (·.eventType.hasResult) = 0 :=
    List.countP_eq_zero.mpr fun e he => by rw [hunrun e he]; decide
  have hnoneOk : before.countP (·.eventType.isSuccess) = 0 := by
    refine List.countP_eq_zero.mpr fun e he hok => ?_
    have hres := hunrun e he
    cases ht : e.eventType <;> rw [ht] at hok hres <;> cases hok <;> cases hres
  constructor
  · rw [List.countP_append, hnone, Nat.zero_add, h.returned]
  · rw [List.countP_append, hnoneOk, Nat.zero_add, h.success]
  · intro r hr source hsource
    obtain ⟨a, ha, href, e, he, hid⟩ := h.cited r hr source hsource
    exact ⟨a, ha, href, e, List.mem_append_right _ he, hid⟩

/-- The results of a turn report its events, and its context is what was retrieved for the request. -/
theorem invoke_reports {g : AgentGraph σ} {raw : Json} {state : AgentState} {st : RunState σ} {turn : Turn σ}
    (hresults : state.actionResults = []) (hturn : g.invoke raw state st = .ok turn) :
    g.knowledge.query (some (getCurrentPrincipal state)) (lastUserText state.messages) 5 =
        .ok turn.state.kgContext ∧
      LoopReports turn.state.proposedActions turn.state.actionResults turn.events := by
  simp only [AgentGraph.invoke, Fallible.bind_eq_ok] at hturn
  obtain ⟨⟨state', after⟩, hnode, hturn⟩ := hturn
  obtain ⟨plan, world, -, -, -, haudit, hresults'⟩ := plannerNode_eq_ok hnode
  obtain ⟨planned, hplanned, hunrun⟩ := plannerLoop_unrun g.registry (getCurrentPrincipal state)
    g.plannerPolicy plan 0 st.audit
  have hcontext := (state_of_plannerNode hnode).2
  rw [← haudit] at hplanned
  simp only [newEvents_append hplanned] at hturn
  split at hturn
  next =>
    cases hturn
    have hnothing : LoopReports state'.proposedActions state'.actionResults [] := by
      rw [hresults', hresults]
      exact ⟨rfl, rfl, by simp⟩
    refine ⟨hcontext, ?_⟩
    simpa using hnothing.of_prefix hunrun
  next =>
    cases hturn
    obtain ⟨executed, hevents, hkg, hprop, hreports⟩ := execute_reports g state' after planned
    rw [hevents, hkg, hprop]
    exact ⟨hcontext, hreports.of_prefix hunrun⟩
  next =>
    simp only [Fallible.bind_eq_ok, Fallible.pure_eq_ok] at hturn
    obtain ⟨⟨state'', audit⟩, happ, rfl⟩ := hturn
    obtain ⟨decided, hdecided, hundecided, -⟩ := approvalNode_decides happ
    rw [newEvents_append hdecided]
    obtain ⟨executed, hevents, hkg, hprop, hreports⟩ := execute_reports g state''
      ((g.others .approval after).withAudit audit) (planned ++ decided)
    rw [hevents, hkg, hprop, kgContext_of_approvalNode happ]
    refine ⟨hcontext, hreports.of_prefix fun e he => ?_⟩
    rcases List.mem_append.mp he with he | he
    · exact hunrun e he
    · exact hundecided e he

/-- What an answer may say about where it comes from and how sure it is. -/
structure Grounded (who : Principal) (policy : PolicyStore) (retrieved : List Entity) (turn : Turn σ)
    (answer : Answer) : Prop where
  distinct : (answer.sources.map Source.key).Nodup
  executed : ∀ s ∈ answer.sources, s.kind = .tool → ∃ a ∈ turn.state.proposedActions, s.ref = a.tool ∧
    ∃ e ∈ turn.events, e.actionId = a.actionId ∧ e.eventType = .executed
  readable : ∀ s ∈ answer.sources, s.kind = .knowledge →
    ∃ e ∈ retrieved, s = knowledgeSource e ∧ canRead (some who) e (some policy) = true
  complete : ∀ e ∈ retrieved, ∃ s ∈ answer.sources, s.key = (.knowledge, e.id)
  confidence : answer.confidence =
    if turn.events.any (·.eventType.hasResult) then
      .fraction (turn.events.countP (·.eventType.isSuccess)) (turn.events.countP (·.eventType.hasResult))
    else if retrieved.isEmpty then .ungrounded else .grounded

theorem confidence_of_reports {as : List ProposedAction} {results : List ActionResult}
    {events : List AuditEvent} (h : LoopReports as results events) (retrieved : List Entity) :
    scoreConfidence results retrieved =
      if events.any (·.eventType.hasResult) then
        .fraction (events.countP (·.eventType.isSuccess)) (events.countP (·.eventType.hasResult))
      else if retrieved.isEmpty then .ungrounded else .grounded := by
  have hany : events.any (·.eventType.hasResult) = !results.isEmpty := by
    rw [Bool.eq_iff_iff, List.any_eq_true, ← List.countP_pos_iff, ← h.returned]
    cases results <;> simp
  rw [scoreConfidence, h.success, h.returned, hany]
  cases results <;> cases retrieved <;> rfl

/-- The sources and the confidence do not depend on the narrator. -/
theorem provenance_of_responderNode (narrator : Option (Narrator σ)) (state : AgentState) (world : σ) :
    (responderNode narrator state world).1.sources = collectSources state.actionResults state.kgContext ∧
      (responderNode narrator state world).1.confidence =
        scoreConfidence state.actionResults state.kgContext := by
  unfold responderNode
  cases narrator with
  | none => exact ⟨rfl, rfl⟩
  | some respond =>
    dsimp only
    split <;> exact ⟨rfl, rfl⟩

/-- Over either store and with any narrator, the answer to a turn cites what was run in it and what its
    principal may read, each once, and leaves out nothing that was retrieved. -/
theorem answer_grounded {V D S : Type} (b : KnowledgeBackend V D S) (narrator : Option (Narrator σ))
    (g : AgentGraph σ) (hknowledge : g.knowledge = b.toKnowledgeGraph) (raw : Json) (thread : AgentState)
    (userMessage : String) (principal : Option Principal) (st : RunState σ) (turn : Turn σ)
    (hturn : g.invoke raw (thread.update (initialState userMessage principal)) st = .ok turn) :
    ∃ retrieved, b.toKnowledgeGraph.query (some (principal.getD Principal.anonymous)) userMessage 5 =
        .ok retrieved ∧
      Grounded (principal.getD Principal.anonymous) b.policy retrieved turn
        (responderNode narrator turn.state turn.run.world).1 := by
  have htext : lastUserText (thread.update (initialState userMessage principal)).messages = userMessage := by
    simp [lastUserText, AgentState.update, initialState]
  have hwho : getCurrentPrincipal (thread.update (initialState userMessage principal)) =
      principal.getD Principal.anonymous := rfl
  obtain ⟨hcontext, hreports⟩ := invoke_reports rfl hturn
  rw [htext, hwho, hknowledge] at hcontext
  obtain ⟨hsources, hconfidence⟩ := provenance_of_responderNode narrator turn.state turn.run.world
  refine ⟨turn.state.kgContext, hcontext, ?_⟩
  constructor
  · rw [hsources]
    exact nodup_collectSources _ _
  · intro s hs hkind
    rw [hsources] at hs
    rcases List.mem_append.mp (mem_citations_of_collectSources hs) with hs | hs
    · obtain ⟨r, hr, hsource⟩ := List.mem_filterMap.mp hs
      exact hreports.cited r hr s hsource
    · obtain ⟨e, -, rfl⟩ := List.mem_map.mp hs
      cases hkind
  · intro s hs hkind
    rw [hsources] at hs
    rcases List.mem_append.mp (mem_citations_of_collectSources hs) with hs | hs
    · obtain ⟨r, -, hsource⟩ := List.mem_filterMap.mp hs
      rw [(kind_of_toolSource hsource).1] at hkind
      cases hkind
    · obtain ⟨e, he, rfl⟩ := List.mem_map.mp hs
      exact ⟨e, he, rfl, KnowledgeBackend.readable_of_mem_query (by decide) hcontext he⟩
  · intro e he
    rw [hsources]
    exact exists_source_of_citation (List.mem_append_right _ (List.mem_map_of_mem he))
  · rw [hconfidence, confidence_of_reports hreports]

/-! ### A tool that names its source -/

/-- A read whose output says where it is from. -/
def quotingTool : BaseTool ℕ :=
  { countingTool .read with run := fun _ _ n => (.ok (.obj [("source", .str "stub")]), n + 1) }

def noteFor (userId : String) : Entity where
  id := "note:" ++ userId
  type := "document"
  name := "note"
  acl := [identityAcl userId]

/-- A store with a note of two users each. -/
def noteBackend : KnowledgeBackend Unit Unit Unit :=
  .memory ⟨id, id⟩
    (((InMemoryKnowledgeGraph.empty none).upsertEntity (noteFor "alice")).upsertEntity (noteFor "bob"))

def quotingGraph : AgentGraph ℕ where
  planFn := fun _ _ _ w => (.ok [countingAction "a1" .read, countingAction "a2" .read], w)
  registry := ⟨⟨[("count", quotingTool)], by simp⟩, fun {n t} h => by
    obtain ⟨rfl, rfl⟩ : n = "count" ∧ t = quotingTool := by
      simpa using Dict.get?_eq_some_iff.mp h
    rfl⟩
  knowledge := noteBackend.toKnowledgeGraph
  order := firstSeenOrder
  plannerPolicy := fun _ => DEFAULT_POLICY
  executorPolicy := fun _ => DEFAULT_POLICY
  others := fun _ st => st

def noteReader : Principal := { userId := "alice", roles := ["admin"] }

def quotingTurn : Except PyError (Turn ℕ) :=
  quotingGraph.invoke .null (({} : AgentState).update (initialState "note" (some noteReader))) ⟨freshLog, 0, []⟩

-- one source for the two reads; the note of the other user is not even the admin's to read
example : quotingTurn.toOption.map (fun turn => (responderNode none turn.state turn.run.world).1.sources) =
    some [⟨.tool, "count", "stub"⟩, ⟨.knowledge, "note:alice", "note"⟩] := by
  decide

theorem answer_grounded_quoting : ∃ turn, quotingTurn = .ok turn ∧
    ∃ retrieved, noteBackend.toKnowledgeGraph.query (some noteReader) "note" 5 = .ok retrieved ∧
      Grounded noteReader noteBackend.policy retrieved turn
        (responderNode none turn.state turn.run.world).1 := by
  obtain ⟨turn, hturn⟩ : ∃ turn, quotingTurn = .ok turn := by
    cases h : quotingTurn with
    | ok turn => exact ⟨turn, rfl⟩
    | error e =>
      have hok : quotingTurn.toOption.isSome = true := by decide
      rw [h] at hok
      cases hok
  exact ⟨turn, hturn, answer_grounded noteBackend none quotingGraph rfl _ _ _ (some noteReader) _ turn hturn⟩

end Atlas
