import Atlas.Interface.Service
import Atlas.Knowledge.Namespaces

/-! What a user ingests for themselves is not seen by the others. The knowledge in the namespace of a user is
    the only part of the service that their personal ingests change, besides the `INGESTED` records of the log,
    and no node that acts for somebody else reads either: a query drops what the principal may not read, and of
    the log a node reads only `has_executed`. So a run without these ingests goes on in the same way, thread
    by thread and call by call (`private_ingests_unseen`). -/

namespace Atlas

open LabelledRun Text InMemoryKnowledgeGraph

variable {σ : Type}

/-! ### What a node can tell of the log -/

/-- An event without its id and its time. -/
def AuditEvent.unstamped (e : AuditEvent) : AuditEvent :=
  { e with eventId := "", timestamp := ⟨0, 0, 0, 0, 0, 0, 0⟩ }

/-- The log without stamps and without the records of ingests. -/
def AuditLog.acts (log : AuditLog) : List AuditEvent :=
  (log.events.filter (·.eventType != .ingested)).map AuditEvent.unstamped

section log
variable {log log' : AuditLog}

theorem acts_record (log : AuditLog) (t : AuditEventType) (i : String) (tool : Option String) (actor : String)
    (detail : Args) : (log.record t i tool actor detail).acts = log.acts ++
      if t = .ingested then [] else [⟨"", ⟨0, 0, 0, 0, 0, 0, 0⟩, t, i, tool, actor, detail⟩] := by
  rw [AuditLog.acts, AuditLog.record, List.filter_append, List.map_append]
  by_cases ht : t = .ingested <;> simp [AuditLog.acts, AuditEvent.unstamped, ht]

theorem acts_record_congr (h : log.acts = log'.acts) (t : AuditEventType) (i : String) (tool : Option String)
    (actor : String) (detail : Args) :
    (log.record t i tool actor detail).acts = (log'.record t i tool actor detail).acts := by
  rw [acts_record, acts_record, h]

@[simp] theorem acts_ingested (log : AuditLog) (sourceId scope : String) (n : ℕ) (actor : String)
    (entities relations : Option ℕ) :
    (log.ingested sourceId scope n actor entities relations).acts = log.acts := by
  rw [AuditLog.ingested, acts_record]
  simp

/-- The events that count as executed are all there. -/
theorem find?_acts (log : AuditLog) (i : String) :
    (log.events.reverse.find? fun e => countsAsExecuted e && e.actionId == i).map (·.detail) =
      (log.acts.reverse.find? fun e => countsAsExecuted e && e.actionId == i).map (·.detail) := by
  have hpass : (fun e : AuditEvent => decide ((e.eventType != .ingested) = true ∧
      (countsAsExecuted e && e.actionId == i) = true)) = fun e => countsAsExecuted e && e.actionId == i := by
    funext e
    rw [Bool.eq_iff_iff]
    cases ht : e.eventType <;> simp [countsAsExecuted, ht]
  have hstamp : ((fun e => countsAsExecuted e && e.actionId == i) ∘ AuditEvent.unstamped) =
      fun e => countsAsExecuted e && e.actionId == i := rfl
  rw [AuditLog.acts, ← List.map_reverse, ← List.filter_reverse, List.find?_map, List.find?_filter,
    Option.map_map, hstamp, hpass]
  rfl

theorem hasExecuted_eq_find? (log : AuditLog) (i : String) : log.hasExecuted i =
    ((log.events.reverse.find? fun e => countsAsExecuted e && e.actionId == i).map (·.detail)).isSome := by
  rw [Option.isSome_map, Bool.eq_iff_iff, List.find?_isSome, AuditLog.hasExecuted, List.any_eq_true]
  simp only [List.mem_reverse]

theorem hasExecuted_congr (h : log.acts = log'.acts) (i : String) : log.hasExecuted i = log'.hasExecuted i := by
  rw [hasExecuted_eq_find?, hasExecuted_eq_find?, find?_acts, find?_acts, h]

theorem replayResult_congr (h : log.acts = log'.acts) (a : ProposedAction) :
    replayResult a log = replayResult a log' := by
  have hfind : (log.events.reverse.find? fun e => countsAsExecuted e && e.actionId == a.actionId).map (·.detail) =
      (log'.events.reverse.find? fun e => countsAsExecuted e && e.actionId == a.actionId).map (·.detail) := by
    rw [find?_acts, find?_acts, h]
  simp only [replayResult]
  cases hl : log.events.reverse.find? fun e => countsAsExecuted e && e.actionId == a.actionId with
  | none =>
    cases hl' : log'.events.reverse.find? fun e => countsAsExecuted e && e.actionId == a.actionId with
    | none => rfl
    | some e' => rw [hl, hl'] at hfind; cases hfind
  | some e =>
    cases hl' : log'.events.reverse.find? fun e => countsAsExecuted e && e.actionId == a.actionId with
    | none => rw [hl, hl'] at hfind; cases hfind
    | some e' =>
      rw [hl, hl', Option.map_some, Option.map_some, Option.some.injEq] at hfind
      simp only [hfind]

end log

/-! ### The nodes on two logs -/

/-- Two run states that differ in stamps and in records of ingests only. -/
structure RunState.Alike (st st' : RunState σ) : Prop where
  acts : st.audit.acts = st'.audit.acts
  world : st.world = st'.world
  calls : st.calls = st'.calls

theorem RunState.Alike.withAudit {st st' : RunState σ} (h : st.Alike st') {audit audit' : AuditLog}
    (ha : audit.acts = audit'.acts) :
    (st.withAudit audit).Alike (st'.withAudit audit') :=
  ⟨ha, h.world, h.calls⟩

section nodes
variable (reg : ToolRegistry σ) (principal : Principal) {st st' : RunState σ}

theorem plannerLoop_alike (policy : ℕ → PolicyStore) (as : List ProposedAction) (i : ℕ) {log log' : AuditLog}
    (h : log.acts = log'.acts) :
    (plannerLoop reg principal policy i as log).1 = (plannerLoop reg principal policy i as log').1 ∧
      (plannerLoop reg principal policy i as log).2.acts =
        (plannerLoop reg principal policy i as log').2.acts := by
  induction as generalizing i log log' with
  | nil => exact ⟨rfl, h⟩
  | cons a as ih =>
    have hround : (plannerAction reg principal (policy i) a log).1 =
        (plannerAction reg principal (policy i) a log').1 ∧
        (plannerAction reg principal (policy i) a log).2.acts =
          (plannerAction reg principal (policy i) a log').2.acts := by
      have hproposed : (log.proposed a).acts = (log'.proposed a).acts := acts_record_congr h ..
      unfold plannerAction
      cases resolvePermission reg a with
      | error e => exact ⟨rfl, acts_record_congr hproposed ..⟩
      | ok required =>
        dsimp only
        split
        · exact ⟨rfl, acts_record_congr hproposed ..⟩
        · exact ⟨rfl, hproposed⟩
    obtain ⟨hkept, hacts⟩ := ih (i + 1) hround.2
    simp only [plannerLoop, hround.1, hkept]
    exact ⟨trivial, hacts⟩

theorem executeGuarded_alike (a : ProposedAction) (extra : Option AuditToolContext) (h : st.Alike st') :
    (executeGuarded reg a principal extra st).1 = (executeGuarded reg a principal extra st').1 ∧
      (executeGuarded reg a principal extra st).2.Alike (executeGuarded reg a principal extra st').2 := by
  have hreplay : (st.audit.replaySkipped a "already executed" extra).acts =
      (st'.audit.replaySkipped a "already executed" extra).acts := acts_record_congr h.acts ..
  have houtcome : ∀ r : ActionResult,
      (recordOutcome st.audit r extra).acts = (recordOutcome st'.audit r extra).acts := by
    intro r
    unfold recordOutcome
    split
    · exact acts_record_congr h.acts ..
    · exact acts_record_congr h.acts ..
  unfold executeGuarded
  rw [alreadyExecuted, alreadyExecuted, hasExecuted_congr h.acts]
  split
  · exact ⟨replayResult_congr hreplay a, h.withAudit hreplay⟩
  · simp only [h.world, h.calls]
    exact ⟨trivial, houtcome _, rfl, rfl⟩

theorem executorAction_alike (approved : List String) (policy : PolicyStore) (a : ProposedAction)
    (h : st.Alike st') :
    (executorAction reg principal approved policy a st).1 =
        (executorAction reg principal approved policy a st').1 ∧
      (executorAction reg principal approved policy a st).2.Alike
        (executorAction reg principal approved policy a st').2 := by
  unfold executorAction
  cases reg.get a.tool with
  | error e => exact ⟨rfl, h.withAudit (acts_record_congr h.acts ..)⟩
  | ok tool =>
    dsimp only
    cases requiredPermissionFor a tool with
    | error e => exact ⟨rfl, h.withAudit (acts_record_congr h.acts ..)⟩
    | ok required =>
      dsimp only
      split
      · exact ⟨rfl, h.withAudit (acts_record_congr h.acts ..)⟩
      · split
        · exact ⟨rfl, h.withAudit (acts_record_congr h.acts ..)⟩
        · obtain ⟨hresult, hst⟩ := executeGuarded_alike reg principal a
            (some (tool.auditContext principal)) h
          exact ⟨congrArg some hresult, hst⟩

theorem executorLoop_alike (approved : List String) (policy : ℕ → PolicyStore) (as : List ProposedAction)
    (i : ℕ) (h : st.Alike st') :
    (executorLoop reg principal approved policy i as st).1 =
        (executorLoop reg principal approved policy i as st').1 ∧
      (executorLoop reg principal approved policy i as st).2.Alike
        (executorLoop reg principal approved policy i as st').2 := by
  induction as generalizing i st st' with
  | nil => exact ⟨rfl, h⟩
  | cons a as ih =>
    obtain ⟨hresult, hst⟩ := executorAction_alike reg principal approved (policy i) a h
    obtain ⟨hresults, hend⟩ := ih (i + 1) hst
    simp only [executorLoop, hresult, hresults]
    exact ⟨trivial, hend⟩

theorem executorNode_alike (policy : ℕ → PolicyStore) (state : AgentState) (h : st.Alike st') :
    (executorNode reg policy state st).1 = (executorNode reg policy state st').1 ∧
      (executorNode reg policy state st).2.Alike (executorNode reg policy state st').2 := by
  obtain ⟨hresults, hend⟩ := executorLoop_alike reg (getCurrentPrincipal state)
    state.approvedActionIds policy state.proposedActions 0 h
  exact ⟨congrArg (fun results => { state with actionResults := results }) hresults, hend⟩

theorem approvalNode_alike {order : SetOrder} {raw : Json} {state state' : AgentState} {log log' audit : AuditLog}
    (h : log.acts = log'.acts) (hnode : approvalNode order raw state log = .ok (state', audit)) :
    ∃ audit', approvalNode order raw state log' = .ok (state', audit') ∧ audit.acts = audit'.acts := by
  simp only [approvalNode, Fallible.bind_eq_ok, Fallible.pure_eq_ok, Prod.mk.injEq] at hnode ⊢
  obtain ⟨ds, hds, rfl, rfl⟩ := hnode
  refine ⟨_, ⟨ds, hds, rfl, rfl⟩, ?_⟩
  clear hds
  induction ds generalizing log log' with
  | nil => exact h
  | cons d ds ih => exact ih (acts_record_congr h ..)

end nodes

/-! ### The knowledge of the others -/

/-- The id is outside the namespace of the user. -/
def outside (userId id : String) : Bool := !hasPrefix (personalSegment userId ++ ":") id

/-- What a graph holds outside it. -/
def InMemoryKnowledgeGraph.others (userId : String) (g : InMemoryKnowledgeGraph) : Dict String Entity :=
  g.entities.filterKeys (outside userId)

section graph
variable {userId : String} {g g' : InMemoryKnowledgeGraph}

theorem others_upsertEntity (g : InMemoryKnowledgeGraph) (e : Entity) : (g.upsertEntity e).others userId =
    if outside userId e.id = true then (g.others userId).set e.id e else g.others userId :=
  Dict.filterKeys_set ..

theorem others_upsertAll_congr (es : List Entity) (h : g.others userId = g'.others userId) :
    (g.upsertAll es).others userId = (g'.upsertAll es).others userId := by
  induction es generalizing g g' with
  | nil => exact h
  | cons e es ih =>
    have hfirst : (g.upsertEntity e).others userId = (g'.upsertEntity e).others userId := by
      rw [others_upsertEntity, others_upsertEntity, h]
    exact ih hfirst

theorem others_upsertAll_of_owned (es : List Entity) (h : ∀ e ∈ es, Owned userId e.id) :
    (g.upsertAll es).others userId = g.others userId := by
  induction es generalizing g with
  | nil => rfl
  | cons e es ih =>
    rw [List.forall_mem_cons] at h
    have hfirst : (g.upsertEntity e).others userId = g.others userId := by
      rw [others_upsertEntity, if_neg]
      simpa [outside, Owned] using h.1
    exact (ih (g := g.upsertEntity e) h.2).trans hfirst

theorem others_dropPrefix_congr (pre : String) (h : g.others userId = g'.others userId) :
    (g.dropPrefix pre).others userId = (g'.dropPrefix pre).others userId := by
  have hpart : ∀ g : InMemoryKnowledgeGraph, (g.dropPrefix pre).others userId =
      (g.others userId).filterKeys (fun id => !hasPrefix pre id) := fun g => Dict.filterKeys_comm ..
  rw [hpart, hpart, h]

theorem others_dropPrefix_of_owned {pre : String} (h : ∀ id, hasPrefix pre id = true → Owned userId id) :
    (g.dropPrefix pre).others userId = g.others userId := by
  refine Dict.filterKeys_filterKeys _ fun id hid => ?_
  cases hpre : hasPrefix pre id with
  | false => rfl
  | true =>
    have howned : hasPrefix (personalSegment userId ++ ":") id = true := h id hpre
    rw [outside, howned] at hid
    cases hid

@[simp] theorem policy_upsertAll (es : List Entity) : (g.upsertAll es).policy = g.policy := by
  induction es generalizing g with
  | nil => rfl
  | cons e es ih => exact ih (g := g.upsertEntity e)

@[simp] theorem policy_addAll (rs : List Relation) : (g.addAll rs).policy = g.policy := by
  induction rs generalizing g with
  | nil => rfl
  | cons r rs ih => exact ih (g := g.addRelation r)

theorem others_addAll (rs : List Relation) : (g.addAll rs).others userId = g.others userId := by
  rw [others, entities_addAll, others]

end graph

section calls
variable {rt : IngestRuntime} {c : IngestCall} {userId : String} {st st' : KnowledgeState}

/-- Every ingest does the same outside the namespace, whatever is inside it. -/
theorem others_apply_congr (h : st.graph.others userId = st'.graph.others userId) :
    (c.apply rt st).graph.others userId = (c.apply rt st').graph.others userId := by
  cases hplan : planIngest rt c.service c.principal c.document with
  | error err =>
    rw [IngestCall.apply, IngestCall.apply, ingest_of_error st hplan, ingest_of_error st' hplan]
    exact h
  | ok r =>
    obtain ⟨who, plan⟩ := r
    rw [graph_apply hplan, graph_apply hplan]
    have hchunks := others_upsertAll_congr (chunkEntities c.document plan) h
    cases extractionOf rt c.service c.document plan c.fails with
    | none => exact hchunks
    | some extracted =>
      simp only [withExtraction, replaceExtraction, others_addAll]
      exact others_upsertAll_congr _ (others_dropPrefix_congr _ hchunks)

/-- A personal ingest of the user does nothing outside their namespace. -/
theorem others_apply_of_private {who : Principal} (hwho : c.principal = some who) (hid : who.userId = userId)
    (hscope : c.document.scope = .personal) :
    (c.apply rt st).graph.others userId = st.graph.others userId := by
  cases hplan : planIngest rt c.service c.principal c.document with
  | error err => rw [IngestCall.apply, ingest_of_error st hplan]
  | ok r =>
    obtain ⟨who', plan⟩ := r
    obtain ⟨howner, hchunk, hext⟩ := owned_of_written hwho hscope hplan
    rw [hid] at howner hchunk hext
    rw [graph_apply hplan]
    have hchunks : (st.graph.upsertAll (chunkEntities c.document plan)).others userId =
        st.graph.others userId :=
      others_upsertAll_of_owned _ fun e he => hchunk e.id (List.mem_map_of_mem he)
    cases hx : extractionOf rt c.service c.document plan c.fails with
    | none => exact hchunks
    | some extracted =>
      obtain ⟨es, rs⟩ := extracted
      simp only [withExtraction, replaceExtraction, others_addAll]
      rw [others_upsertAll_of_owned es fun e he => hext es rs hx e.id (List.mem_map_of_mem he),
        others_dropPrefix_of_owned fun id hpre => ?_, hchunks]
      rw [howner] at hpre
      exact owned_of_hasPrefix hpre

theorem policy_apply : (c.apply rt st).graph.policy = st.graph.policy := by
  cases hplan : planIngest rt c.service c.principal c.document with
  | error err => rw [IngestCall.apply, ingest_of_error st hplan]
  | ok r =>
    rw [graph_apply hplan]
    cases extractionOf rt c.service c.document r.2 c.fails with
    | none => simp [withExtraction]
    | some extracted => simp [withExtraction, replaceExtraction, dropPrefix]

/-- What an ingest records is no act. -/
theorem acts_apply (g : InMemoryKnowledgeGraph) (log : AuditLog) :
    ((c.apply rt ⟨g, some log⟩).audit.getD log).acts = log.acts := by
  cases hplan : planIngest rt c.service c.principal c.document with
  | error err => rw [IngestCall.apply, ingest_of_error _ hplan]; rfl
  | ok r => rw [IngestCall.apply, ingest_of_ok _ hplan]; exact acts_ingested ..

end calls

/-! ### Who can read inside a namespace -/

/-- Everything stored in the namespace was written by some ingest. -/
def Ingested (rt : IngestRuntime) (userId : String) (g : InMemoryKnowledgeGraph) : Prop :=
  ∀ k e, g.entities.get? k = some e → Owned userId k → ∃ c : IngestCall, e ∈ c.writtenEntities rt

theorem ingested_apply {rt : IngestRuntime} {userId : String} {c : IngestCall} {st : KnowledgeState}
    (h : Ingested rt userId st.graph) : Ingested rt userId (c.apply rt st).graph := by
  intro k e hget howned
  rcases IngestCall.stored_apply hget with hget | he
  · exact h k e hget howned
  · exact ⟨c, he⟩

/-- An organization's ids are under another prefix. -/
theorem org_of_written {rt : IngestRuntime} {c : IngestCall} {who : Principal} {plan : IngestPlan} {e : Entity}
    (hplan : planIngest rt c.service c.principal c.document = .ok (who, plan))
    (hscope : c.document.scope = .org) (h : e ∈ c.writtenEntities rt) : hasPrefix "org:" e.id = true := by
  obtain ⟨-, -, hres, -⟩ := admit_eq_ok hplan
  have howner : plan.ownerSegment = "org" := by
    rw [resolveScopeAcl, hscope] at hres
    simp only at hres
    split at hres
    next => cases hres
    next =>
      split at hres
      next => exact (Prod.mk.inj (Prod.mk.inj (Except.ok.inj hres)).2).2.symm
      next => exact (Prod.mk.inj (Prod.mk.inj (Except.ok.inj hres)).2).2.symm
  rcases (IngestCall.mem_writtenEntities_of_ok hplan).mp h with hchunk | ⟨es, rs, hx, he⟩
  · obtain ⟨-, -, index, -, hid⟩ := mem_chunkEntities hchunk
    rw [hid, howner]
    exact hasPrefix_iff.mpr ⟨plan.sourceId ++ ":" ++ pad4 index, by simp only [chunkId, String.append_assoc]; rfl⟩
  · have hpre := (mem_extractionOf hx he).2.2
    rw [howner] at hpre
    refine hasPrefix_trans (hasPrefix_iff.mpr ⟨plan.sourceId ++ ":entity:", ?_⟩) hpre
    simp only [extractionEntityPrefix, String.append_assoc]
    rfl

theorem not_owned_org {userId id : String} (h : hasPrefix "org:" id = true) : ¬Owned userId id := by
  rw [Owned]
  intro howned
  obtain ⟨t, rfl⟩ := hasPrefix_iff.mp h
  obtain ⟨t', ht'⟩ := hasPrefix_iff.mp howned
  have hlist := congrArg String.toList ht'
  simp [personalSegment, String.toList_append] at hlist

/-- Nobody else reads anything in the namespace of a user, as long as no user id has a colon. -/
theorem not_owned_of_readable {rt : IngestRuntime} {g : InMemoryKnowledgeGraph} {userId : String}
    {reader : Principal} {policy : Option PolicyStore} {k : String} {e : Entity} (hg : Ingested rt userId g)
    (huser : ':' ∉ userId.toList) (hplain : ':' ∉ reader.userId.toList) (hne : reader.userId ≠ userId)
    (hget : g.entities.get? k = some e) (hread : canRead (some reader) e policy = true) :
    ¬Owned userId k := by
  intro howned
  obtain ⟨c, hwritten⟩ := hg k e hget howned
  rw [← g.keyed k e hget] at howned
  obtain ⟨who, plan, hplan, hmem⟩ := IngestCall.mem_writtenEntities.mp hwritten
  cases hscope : c.document.scope with
  | personal =>
    obtain ⟨who', reader', hwho, hreader, hid⟩ := reader_of_personal hscope hwritten hread
    cases hreader
    have hown : Owned reader.userId e.id := hid ▸ owned_of_wroteEntity ⟨c, hwho, hscope, hwritten⟩
    exact hne (owned_unique hplain huser hown howned)
  | org =>
    exact not_owned_org (org_of_written hplan hscope hwritten) howned

/-- So the query of another reader is answered from what is outside. -/
theorem query_others {rt : IngestRuntime} {g g' : InMemoryKnowledgeGraph} {userId : String} {reader : Principal}
    (hg : Ingested rt userId g) (hg' : Ingested rt userId g') (hpolicy : g.policy = g'.policy)
    (hothers : g.others userId = g'.others userId) (huser : ':' ∉ userId.toList)
    (hplain : ':' ∉ reader.userId.toList) (hne : reader.userId ≠ userId) (text : String) (limit : ℤ) :
    g.query rt.toTextRuntime (some reader) text limit = g'.query rt.toTextRuntime (some reader) text limit := by
  have hpart : ∀ g₀ : InMemoryKnowledgeGraph, Ingested rt userId g₀ →
      g₀.entities.values.filter (fun e => canRead (some reader) e g.policy) =
        (g₀.others userId).values.filter (fun e => canRead (some reader) e g.policy) := by
    intro g₀ hg₀
    refine (Dict.filter_values_filterKeys fun k e hget hread => ?_).symm
    have hnot := not_owned_of_readable hg₀ huser hplain hne hget hread
    rw [outside, Bool.not_eq_true', ← Bool.not_eq_true]
    exact hnot
  refine memoryQuery_congr hpolicy ?_ text limit
  rw [hpart g hg, hpart g' hg', hothers]

/-! ### One step of the service -/

/-- A personal ingest of the user. -/
def ServiceStep.privateTo (userId : String) : ServiceStep → Bool
  | .ingest call => call.document.scope == .personal && call.principal.map (·.userId) == some userId
  | .chat _ _ _ | .approve _ _ | .advance _ _ => false

/-- Two states of the service that differ in the namespace of the user, in stamps and in records of ingests,
    where no thread is the user's. -/
structure Unseen (d : Deployment σ) (userId : String) (s s' : Service σ) : Prop where
  others : s.graph.others userId = s'.graph.others userId
  policy : s.graph.policy = s'.graph.policy
  ingested : Ingested d.rt userId s.graph
  ingested' : Ingested d.rt userId s'.graph
  run : s.run.Alike s'.run
  threads : s.threads = s'.threads
  owners : ∀ threadId thread, s.threads.get? threadId = some thread → ∃ owner,
    thread.state.principal = some owner ∧ owner.userId ≠ userId ∧ ':' ∉ owner.userId.toList

/-- The user opens no thread here, and who does has no colon in their id. -/
def ServiceStep.ByOthers (userId : String) : ServiceStep → Prop
  | .chat _ _ principal => principal.userId ≠ userId ∧ ':' ∉ principal.userId.toList
  | .ingest _ | .approve _ _ | .advance _ _ => True

section step
variable {d : Deployment σ} {userId : String} {s s' t : Service σ} {thread thread' : Thread}

theorem plannerNode_alike {planFn : PlanFn σ} {reg : ToolRegistry σ} {kg : KnowledgeGraph} (kg' : KnowledgeGraph)
    {policy : ℕ → PolicyStore} {state state' : AgentState} {st st' after : RunState σ}
    (hquery : kg.query (some (getCurrentPrincipal state)) (lastUserText state.messages) 5 =
      kg'.query (some (getCurrentPrincipal state)) (lastUserText state.messages) 5) (h : st.Alike st')
    (hnode : plannerNode planFn reg kg policy state st = .ok (state', after)) :
    ∃ after', plannerNode planFn reg kg' policy state st' = .ok (state', after') ∧ after.Alike after' := by
  unfold plannerNode at hnode ⊢
  obtain ⟨context, hcontext, hnode⟩ := Fallible.bind_eq_ok.mp hnode
  simp only [← hquery, hcontext, Fallible.ok_bind, ← h.world]
  split at hnode
  next => cases hnode
  next plan world _ =>
    obtain ⟨hkept, hacts⟩ := plannerLoop_alike reg (getCurrentPrincipal state) policy plan 0 h.acts
    cases hnode
    rw [← hkept]
    exact ⟨_, rfl, hacts, rfl, h.calls⟩

theorem advance_alike (huser : ':' ∉ userId.toList) (h : Unseen d userId s s') {threadId : String}
    (hget : s.threads.get? threadId = some thread) {policy : ℕ → PolicyStore} {after : RunState σ}
    (hstep : thread.advance d s.graph policy s.run = some (thread', after)) :
    ∃ after', thread.advance d s'.graph policy s'.run = some (thread', after') ∧ after.Alike after' := by
  obtain ⟨owner, howner, hne, hplain⟩ := h.owners threadId thread hget
  have hwho : getCurrentPrincipal thread.state = owner := by rw [getCurrentPrincipal, howner]; rfl
  have hworld := h.run.world
  cases hnext : thread.next with
  | planner =>
    have hquery := query_others h.ingested h.ingested' h.policy h.others huser hplain hne
      (lastUserText thread.state.messages) 5
    rw [← hwho] at hquery
    have hgraph := congrArg (Except.ok : List Entity → Except PyError (List Entity)) hquery
    simp only [Thread.advance, hnext] at hstep ⊢
    split at hstep
    next state st₁ hnode =>
      obtain ⟨after', hnode', halike⟩ := plannerNode_alike (s'.graph.toKnowledgeGraph d.rt.toTextRuntime)
        hgraph h.run hnode
      cases hstep
      exact ⟨after', by rw [hnode'], halike⟩
    next => cases hstep
  | executor =>
    obtain ⟨hstate, halike⟩ := executorNode_alike d.registry policy thread.state h.run
    simp only [Thread.advance, hnext] at hstep ⊢
    cases hstep
    exact ⟨_, by rw [hstate], halike⟩
  | responder =>
    simp only [Thread.advance, hnext] at hstep ⊢
    cases hstep
    rw [hworld]
    exact ⟨_, rfl, h.run.acts, rfl, h.run.calls⟩
  | approval | finished =>
    simp only [Thread.advance, hnext] at hstep
    cases hstep

theorem principal_of_advance {graph : InMemoryKnowledgeGraph} {policy : ℕ → PolicyStore} {st st' : RunState σ}
    (h : thread.advance d graph policy st = some (thread', st')) :
    thread'.state.principal = thread.state.principal := by
  rcases advance_cases h with ⟨-, state, hnode, rfl⟩ | ⟨-, -, rfl⟩ | ⟨-, -, rfl⟩
  · rw [(state_of_plannerNode hnode).1]
  · rfl
  · rfl

theorem resume_alike {caller : Principal} {body : ApproveRequest} {log log' audit : AuditLog}
    (h : log.acts = log'.acts) (hstep : thread.resume d caller body log = some (thread', audit)) :
    ∃ audit', thread.resume d caller body log' = some (thread', audit') ∧ audit.acts = audit'.acts := by
  unfold Thread.resume at hstep ⊢
  split at hstep
  next => cases hstep
  next payload _ =>
    split at hstep
    next => cases hstep
    next state audit₁ hnode =>
      obtain ⟨audit', hnode', hacts⟩ := approvalNode_alike h hnode
      cases hstep
      exact ⟨audit', by simp only [hnode'], hacts⟩

/-- A thread that keeps its owner is replaced in both states. -/
theorem Unseen.set_thread (h : Unseen d userId s s') (threadId : String) {run run' : RunState σ}
    (hrun : run.Alike run') (howner : ∃ owner, thread'.state.principal = some owner ∧
      owner.userId ≠ userId ∧ ':' ∉ owner.userId.toList) :
    Unseen d userId { s with run := run, threads := s.threads.set threadId thread' }
      { s' with run := run', threads := s'.threads.set threadId thread' } := by
  refine ⟨h.others, h.policy, h.ingested, h.ingested', hrun, congrArg (·.set threadId thread') h.threads, ?_⟩
  intro threadId' thread hget
  rw [Dict.get?_set] at hget
  split at hget
  next => cases hget; exact howner
  next => exact h.owners threadId' thread hget

theorem unseen_of_kept (huser : ':' ∉ userId.toList) (s s' : Service σ) (step : ServiceStep) (t : Service σ)
    (h : Unseen d userId s s') (hok : step.ByOthers userId) (hstep : serviceStep d s step = some t) :
    ∃ t', serviceStep d s' step = some t' ∧ Unseen d userId t t' := by
  cases step with
  | ingest call =>
    cases hstep
    refine ⟨_, rfl, others_apply_congr h.others, ?_, ingested_apply h.ingested, ingested_apply h.ingested',
      h.run.withAudit ?_, h.threads, h.owners⟩
    · rw [policy_apply, policy_apply]
      exact h.policy
    · rw [acts_apply, acts_apply]
      exact h.run.acts
  | chat threadId message principal =>
    simp only [serviceStep] at hstep ⊢
    split at hstep
    next => cases hstep
    next hnew =>
      cases hstep
      rw [← h.threads, if_neg hnew]
      have hopened : ∃ owner, ({ state := initialState message (some principal) } : Thread).state.principal =
          some owner ∧ owner.userId ≠ userId ∧ ':' ∉ owner.userId.toList := ⟨principal, rfl, hok⟩
      have hset := h.set_thread threadId h.run hopened
      rw [← h.threads] at hset
      exact ⟨_, rfl, hset⟩
  | approve caller body =>
    simp only [serviceStep, Option.bind_eq_bind, Option.bind_eq_some_iff] at hstep ⊢
    obtain ⟨thread, hget, ⟨thread', audit⟩, hresume, ht⟩ := hstep
    cases ht
    obtain ⟨audit', hresume', hacts⟩ := resume_alike h.run.acts hresume
    obtain ⟨-, -, state, hnode, rfl⟩ := resume_cases hresume
    obtain ⟨owner, howner, hother⟩ := h.owners _ thread hget
    obtain ⟨-, hprincipal, -, -⟩ := approvalNode_eq_ok hnode
    refine ⟨_, ⟨thread, h.threads ▸ hget, _, hresume', rfl⟩, ?_⟩
    exact h.set_thread _ (h.run.withAudit hacts) ⟨owner, hprincipal.trans howner, hother⟩
  | advance threadId policy =>
    simp only [serviceStep, Option.bind_eq_bind, Option.bind_eq_some_iff] at hstep ⊢
    obtain ⟨thread, hget, ⟨thread', run⟩, hadvance, ht⟩ := hstep
    cases ht
    obtain ⟨run', hadvance', halike⟩ := advance_alike huser h hget hadvance
    obtain ⟨owner, howner, hother⟩ := h.owners _ thread hget
    refine ⟨_, ⟨thread, h.threads ▸ hget, _, hadvance', rfl⟩, ?_⟩
    exact h.set_thread _ halike ⟨owner, (principal_of_advance hadvance).trans howner, hother⟩

theorem unseen_of_dropped (s s' : Service σ) (step : ServiceStep) (t : Service σ) (h : Unseen d userId s s')
    (hprivate : step.privateTo userId = true) (hstep : serviceStep d s step = some t) :
    Unseen d userId t s' := by
  cases step with
  | ingest call =>
    cases hstep
    simp only [ServiceStep.privateTo, Bool.and_eq_true, beq_iff_eq, Option.map_eq_some_iff] at hprivate
    obtain ⟨hscope, who, hwho, hid⟩ := hprivate
    refine ⟨(others_apply_of_private hwho hid hscope).trans h.others, policy_apply.trans h.policy,
      ingested_apply h.ingested, h.ingested', ⟨?_, h.run.world, h.run.calls⟩, h.threads, h.owners⟩
    exact (acts_apply _ _).trans h.run.acts
  | chat | approve | advance => cases hprivate

end step

/-- However the requests interleave: without the personal ingests of a user who opens no thread, every other
    user's thread, the world, the calls of tools and the acts in the log are as they would have been. -/
theorem private_ingests_unseen (d : Deployment σ) (userId : String) (huser : ':' ∉ userId.toList)
    (start : Service σ) (hgraph : ∀ id ∈ start.graph.entities.keys, ¬Owned userId id)
    (hthreads : start.threads = Dict.empty)
    (steps : List ServiceStep) (hothers : ∀ step ∈ steps, step.ByOthers userId) (s : Service σ)
    (hrun : exec (serviceStep d) start steps = some s) :
    ∃ s', exec (serviceStep d) start (steps.filter fun step => !step.privateTo userId) = some s' ∧
      s'.threads = s.threads ∧ s'.run.world = s.run.world ∧ s'.run.calls = s.run.calls ∧
      s'.run.audit.acts = s.run.audit.acts := by
  have hingested : Ingested d.rt userId start.graph := by
    intro k e hget howned
    exact absurd howned (hgraph k (Dict.mem_keys_iff.mpr (by rw [hget]; rfl)))
  have hinit : Unseen d userId start start := by
    refine ⟨rfl, rfl, hingested, hingested, ⟨rfl, rfl, rfl⟩, rfl, fun threadId thread hget => ?_⟩
    rw [hthreads, Dict.get?_empty] at hget
    cases hget
  have hdropped : ∀ s s' step t, Unseen d userId s s' → (!step.privateTo userId) = false →
      serviceStep d s step = some t → Unseen d userId t s' := by
    intro s s' step t h hdrop hstep
    rw [Bool.not_eq_false'] at hdrop
    exact unseen_of_dropped s s' step t h hdrop hstep
  obtain ⟨s', hrun', hunseen⟩ := exec_filter
    (fun s s' step t h hok _ hstep => unseen_of_kept huser s s' step t h hok hstep) hdropped hinit hothers hrun
  exact ⟨s', hrun', hunseen.threads.symm, hunseen.run.world.symm, hunseen.run.calls.symm,
    hunseen.run.acts.symm⟩

/-! ### A note that nobody else sees -/

/-- Another user keeps a note before an admin's turn. -/
def notedRun : List ServiceStep := .ingest (noteOf "bob" "plans") :: resumedBy noteReader

theorem private_ingests_unseen_bob : ∃ s s',
    exec (serviceStep countingDeployment) freshService notedRun = some s ∧
      exec (serviceStep countingDeployment) freshService
        (notedRun.filter fun step => !step.privateTo "bob") = some s' ∧
      s'.threads = s.threads ∧ s'.run.world = s.run.world ∧ s'.run.calls = s.run.calls ∧
      s'.run.audit.acts = s.run.audit.acts := by
  obtain ⟨s, hrun⟩ := Option.isSome_iff_exists.mp (show
    (exec (serviceStep countingDeployment) freshService notedRun).isSome = true by decide)
  have hothers : ∀ step ∈ notedRun, step.ByOthers "bob" := by
    simp [notedRun, resumedBy, ServiceStep.ByOthers, noteReader]
  obtain ⟨s', hrun', hsame⟩ := private_ingests_unseen countingDeployment "bob" (by decide) freshService
    (fun _ h => absurd h List.not_mem_nil) rfl
    notedRun hothers s hrun
  exact ⟨s, s', hrun, hrun', hsame⟩

end Atlas
