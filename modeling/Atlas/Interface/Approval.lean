import Atlas.Interface.ApproveStream
import Atlas.Orchestration.Decisions

/-! What an approve request decides. The request is expanded into explicit decisions with the snapshot of
    the paused thread (`decision_payload`), parsed again by the approval node against the ids it
    recomputes, and obeyed by the executor. `requested` is the request as a list of decisions; all four
    translations together come down to filtering it by the gated ids (`approvalNode_payload`). -/

namespace Atlas

variable {σ : Type}

/-- A validated `ApproveRequest`: all at once, or by id, but not both. -/
structure ApproveRequest where
  threadId : String
  approve : Option Bool := none
  approvedIds : List String := []
  rejectedIds : List String := []
  thread_nonempty : threadId ≠ ""
  decides : approve ≠ none ∨ approvedIds ≠ [] ∨ rejectedIds ≠ []
  one_way : approve ≠ none → approvedIds = [] ∧ rejectedIds = []
  apart : ∀ id ∈ approvedIds, id ∉ rejectedIds

/-- What `get_state` reads of a thread: its channels, if it is known, and the nodes that run next. -/
structure ThreadSnapshot where
  values : Option AgentState
  next : List String

/-- The part of the snapshot the checks read. -/
def ThreadSnapshot.toStateSnapshot (snapshot : ThreadSnapshot) : StateSnapshot :=
  ⟨snapshot.values.map (·.principal), snapshot.next⟩

/-- `{"action_id": …, "approved": …, "decided_by": …}`. -/
def decisionEntry (actionId : String) (approved : Bool) (decidedBy : String) : Json :=
  .obj [("action_id", .str actionId), ("approved", .bool approved), ("decided_by", .str decidedBy)]

/-- `decision_payload`: explicit decisions, with who made them. -/
def decisionPayload (body : ApproveRequest) (snapshot : ThreadSnapshot) (caller : Principal) : Json :=
  match body.approve with
  | some approve =>
    let gated := ((snapshot.values.map (·.proposedActions)).getD []).filter (·.needsApproval)
    .arr (gated.map (fun a => decisionEntry a.actionId approve caller.userId))
  | none =>
    .arr (body.approvedIds.map (fun aid => decisionEntry aid true caller.userId) ++
      body.rejectedIds.map (fun aid => decisionEntry aid false caller.userId))

/-- `gate_resume` past the lock: the checks on the snapshot, then the decisions. -/
def gateResume (snapshot : ThreadSnapshot) (principal : Principal) (body : ApproveRequest) :
    Except HTTPException Json := do
  gateChecks snapshot.toStateSnapshot principal
  return decisionPayload body snapshot principal

/-! ### The request as decisions -/

/-- The decisions a request stands for. -/
def requested (body : ApproveRequest) (gated : List String) (caller : Principal) :
    List ApprovalDecision :=
  match body.approve with
  | some approve => gated.map (fun aid => ⟨aid, approve, caller.userId⟩)
  | none => body.approvedIds.map (fun aid => ⟨aid, true, caller.userId⟩) ++
      body.rejectedIds.map (fun aid => ⟨aid, false, caller.userId⟩)

/-- The request approves the gated id. -/
def ApproveRequest.Approves (body : ApproveRequest) (gated : List String) (aid : String) : Prop :=
  aid ∈ gated ∧ (body.approve = some true ∨ body.approve = none ∧ aid ∈ body.approvedIds)

/-- The request rejects the gated id. -/
def ApproveRequest.Rejects (body : ApproveRequest) (gated : List String) (aid : String) : Prop :=
  aid ∈ gated ∧ (body.approve = some false ∨ body.approve = none ∧ aid ∈ body.rejectedIds)

section request
variable {body : ApproveRequest} {gated : List String} {caller : Principal}

theorem decisionPayload_eq {snapshot : ThreadSnapshot} {state : AgentState}
    (hvalues : snapshot.values = some state) : decisionPayload body snapshot caller =
      .arr ((requested body ((gatedActions state).map (·.actionId)) caller).map
        (fun d => decisionEntry d.actionId d.approved d.decidedBy)) := by
  rw [decisionPayload, requested, hvalues]
  cases body.approve with
  | some approve => simp only [List.map_map]; rfl
  | none => simp only [List.map_append, List.map_map]; rfl

/-- Parsing a list of explicit decisions keeps exactly those about valid ids. -/
theorem collectDecisions_entries (validIds : List String) : ∀ ds : List ApprovalDecision,
    collectDecisions (decisionOfItem validIds)
      (ds.map (fun d => decisionEntry d.actionId d.approved d.decidedBy)) =
      .ok (ds.filter (fun d => validIds.contains d.actionId))
  | [] => rfl
  | d :: ds => by
      rw [List.map_cons, collectDecisions, collectDecisions_entries validIds ds, List.filter_cons]
      have hitem : decisionOfItem validIds (decisionEntry d.actionId d.approved d.decidedBy) =
          .ok (if validIds.contains d.actionId then [d] else []) := by
        rw [decisionEntry, decisionOfItem]
        by_cases hvalid : d.actionId ∈ validIds <;>
          simp [Json.field?, Json.memberOf, hvalid, Json.truthy, Json.pyStr, bind, Except.bind, pure,
            Except.pure, List.lookup]
      rw [hitem]
      cases validIds.contains d.actionId <;> rfl

/-- What a request decides about gated ids, as the approval node keeps it. -/
def keptDecisions (body : ApproveRequest) (gated : List String) (caller : Principal) :
    List ApprovalDecision :=
  (requested body gated caller).filter (fun d => gated.contains d.actionId)

theorem decidedBy_of_kept {d : ApprovalDecision} (h : d ∈ keptDecisions body gated caller) :
    d.decidedBy = caller.userId := by
  have hreq := (List.mem_filter.mp h).1
  rw [requested] at hreq
  split at hreq
  next => obtain ⟨aid, -, rfl⟩ := List.mem_map.mp hreq; rfl
  next =>
    rcases List.mem_append.mp hreq with hreq | hreq <;>
      (obtain ⟨aid, -, rfl⟩ := List.mem_map.mp hreq; rfl)

/-- The kept decisions are the set algebra of the request. -/
theorem mem_kept_iff {aid : String} {b : Bool} :
    (∃ d ∈ keptDecisions body gated caller, d.actionId = aid ∧ d.approved = b) ↔
      if b then body.Approves gated aid else body.Rejects gated aid := by
  simp only [keptDecisions, List.mem_filter, List.contains_iff_mem, requested]
  cases happrove : body.approve with
  | some approve =>
    cases b <;> cases approve <;>
      simp [ApproveRequest.Approves, ApproveRequest.Rejects, happrove, and_assoc]
  | none =>
    cases b <;>
      (simp [ApproveRequest.Approves, ApproveRequest.Rejects, happrove, or_and_right, exists_or, and_assoc]
       exact and_comm)

/-- Approved and rejected never meet: the request was validated. -/
theorem not_rejects_of_approves {aid : String} (h : body.Approves gated aid) :
    ¬body.Rejects gated aid := by
  rintro ⟨-, hrej⟩
  rcases h.2 with happ | ⟨hnone, happ⟩ <;> rcases hrej with hrej | ⟨hnone', hrej⟩
  · rw [happ] at hrej; cases hrej
  · rw [happ] at hnone'; cases hnone'
  · rw [hnone] at hrej; cases hrej
  · exact body.apart aid happ hrej

end request

/-- The approval node on the payload of a request: it takes the kept decisions, and logs them. -/
theorem approvalNode_payload (order : SetOrder) (body : ApproveRequest) (caller : Principal)
    {snapshot : ThreadSnapshot} {state : AgentState} (audit : AuditLog)
    (hvalues : snapshot.values = some state) :
    approvalNode order (decisionPayload body snapshot caller) state audit =
      .ok ({ state with
          approvedActionIds := ((keptDecisions body ((gatedActions state).map (·.actionId)) caller).filter
            (·.approved)).map (·.actionId)
          rejectedActionIds := ((keptDecisions body ((gatedActions state).map (·.actionId)) caller).filter
            (fun d => !d.approved)).map (·.actionId) },
        (keptDecisions body ((gatedActions state).map (·.actionId)) caller).foldl AuditLog.decided audit) := by
  rw [approvalNode, decisionPayload_eq hvalues, parseDecisions, collectDecisions_entries, Fallible.ok_bind]
  rfl

/-! ### The whole way -/

/-- The ids of the kept decisions that a test picks, where it picks those with the value `b`. -/
theorem mem_actionIds_iff {ds : List ApprovalDecision} {p : ApprovalDecision → Bool} {b : Bool}
    {aid : String} (hp : ∀ d, p d = true ↔ d.approved = b) :
    aid ∈ (ds.filter p).map (·.actionId) ↔ ∃ d ∈ ds, d.actionId = aid ∧ d.approved = b := by
  simp only [List.mem_map, List.mem_filter, hp]
  constructor
  · rintro ⟨d, ⟨hd, hb⟩, hid⟩
    exact ⟨d, hd, hid, hb⟩
  · rintro ⟨d, hd, hid, hb⟩
    exact ⟨d, ⟨hd, hb⟩, hid⟩

theorem mem_approved_iff {body : ApproveRequest} {gated : List String} {caller : Principal} {aid : String} :
    aid ∈ ((keptDecisions body gated caller).filter (·.approved)).map (·.actionId) ↔
      body.Approves gated aid :=
  (mem_actionIds_iff fun _ => Iff.rfl).trans (@mem_kept_iff body gated caller aid true)

theorem mem_rejected_iff {body : ApproveRequest} {gated : List String} {caller : Principal} {aid : String} :
    aid ∈ ((keptDecisions body gated caller).filter (fun d => !d.approved)).map (·.actionId) ↔
      body.Rejects gated aid :=
  (mem_actionIds_iff fun d => by rw [Bool.not_eq_true']).trans
    (@mem_kept_iff body gated caller aid false)

/-- Past the checks, the thread is known. -/
theorem values_of_gateChecks {snapshot : ThreadSnapshot} {caller : Principal}
    (h : gateChecks snapshot.toStateSnapshot caller = .ok ()) : ∃ state, snapshot.values = some state := by
  cases hvalues : snapshot.values with
  | some state => exact ⟨state, rfl⟩
  | none =>
    rw [gateChecks, ThreadSnapshot.toStateSnapshot, hvalues] at h
    cases h

/-- A request past the gate: the approval node takes its payload; what it approves and rejects of the gated
    ids is what the request says of them, never both; every event it logs names the caller; and the
    executor then runs no gated action outside the approved ids. -/
theorem approve_request_decides (order : SetOrder) (body : ApproveRequest) (snapshot : ThreadSnapshot)
    (caller : Principal) (payload : Json) (audit : AuditLog)
    (hgate : gateResume snapshot caller body = .ok payload) :
    ∃ state state' audit' new, snapshot.values = some state ∧
      approvalNode order payload state audit = .ok (state', audit') ∧
      (∀ aid, aid ∈ state'.approvedActionIds ↔ body.Approves ((gatedActions state).map (·.actionId)) aid) ∧
      (∀ aid, aid ∈ state'.rejectedActionIds ↔ body.Rejects ((gatedActions state).map (·.actionId)) aid) ∧
      (∀ aid ∈ state'.approvedActionIds, aid ∉ state'.rejectedActionIds) ∧
      audit'.events = audit.events ++ new ∧
      (∀ e ∈ new, (e.eventType = .approved ∨ e.eventType = .rejected) ∧ e.actor = caller.userId) ∧
      ∀ (reg : ToolRegistry σ) policy world, ∀ c ∈ executorCalls reg policy state' audit' world,
        c.action ∈ state.proposedActions ∧
          (c.action.needsApproval = true → c.action.actionId ∈ state'.approvedActionIds) := by
  simp only [gateResume, Fallible.bind_eq_ok, Fallible.pure_eq_ok] at hgate
  obtain ⟨_, hchecks, rfl⟩ := hgate
  obtain ⟨state, hvalues⟩ := values_of_gateChecks hchecks
  obtain ⟨new, hnew, hmap, htypes⟩ := events_foldl_decided
    (keptDecisions body ((gatedActions state).map (·.actionId)) caller) audit
  refine ⟨state, _, _, new, hvalues, approvalNode_payload order body caller audit hvalues,
    fun _ => mem_approved_iff, fun _ => mem_rejected_iff, fun aid happ hrej => ?_, hnew, fun e he => ?_,
    fun reg policy world c hc => ?_⟩
  · exact not_rejects_of_approves (mem_approved_iff.mp happ) (mem_rejected_iff.mp hrej)
  · have hkept : recordedDecision e ∈
        keptDecisions body ((gatedActions state).map (·.actionId)) caller := by
      rw [← hmap]
      exact List.mem_map_of_mem he
    exact ⟨htypes e he, decidedBy_of_kept hkept⟩
  · obtain ⟨i, hi, -, ⟨-, htier⟩, -⟩ := mem_executorCalls hc
    refine ⟨List.mem_of_getElem? hi, fun hgated => htier.resolve_left ?_⟩
    simpa [ProposedAction.needsApproval] using hgated

/-! ### One request -/

/-- An admin's turn, paused on two gated actions. -/
def pausedPair : ThreadSnapshot where
  values := some {
    principal := some { userId := "alice", roles := ["admin"] }
    proposedActions := [countingAction "a1" .send, countingAction "a2" .send] }
  next := ["approval"]

/-- A decision on both actions, and on an id that is none of theirs. -/
def mixedRequest : ApproveRequest where
  threadId := "thr_1"
  approvedIds := ["a1", "b7"]
  rejectedIds := ["a2"]
  thread_nonempty := by decide
  decides := by decide
  one_way := by decide
  apart := by decide

/-- The request approves the first of two actions; an id that is no gated action's is dropped. -/
theorem approve_request_decides_mixed : ∃ state' audit', approvalNode firstSeenOrder
    (decisionPayload mixedRequest pausedPair { userId := "alice", roles := ["admin"] })
    { principal := some { userId := "alice", roles := ["admin"] }
      proposedActions := [countingAction "a1" .send, countingAction "a2" .send] } freshLog =
      .ok (state', audit') ∧ "a1" ∈ state'.approvedActionIds ∧ "b7" ∉ state'.approvedActionIds := by
  obtain ⟨state, state', audit', new, hvalues, hnode, happ, -⟩ := approve_request_decides (σ := ℕ)
    firstSeenOrder mixedRequest pausedPair { userId := "alice", roles := ["admin"] } _ freshLog rfl
  cases hvalues
  refine ⟨state', audit', hnode, (happ "a1").mpr ⟨by decide, Or.inr ⟨rfl, by decide⟩⟩, fun h => ?_⟩
  exact absurd ((happ "b7").mp h).1 (by decide)

end Atlas
