import Atlas.Orchestration.Nodes

/-! What can reach `registry.execute`. One round of the executor's loop either runs its action, and
    then every gate was open (`MayRun`), or it writes one denial to the audit log and goes on. The
    run lemmas carry this along the whole list in both directions, and the two gates are read off
    them: the permission gate of executor and planner (`permission_gate`), and the approval gate
    (`approval_gate_iff`), which follows the tier stamped on the action. -/

namespace Atlas

variable {σ : Type}

/-! ### One action -/

/-- The gates of the executor, all open for one action. -/
def MayRun (reg : ToolRegistry σ) (principal : Principal) (approved : List String)
    (policy : PolicyStore) (action : ProposedAction) : Prop :=
  (∃ required, resolvePermission reg action = .ok required ∧
    policy.can (some principal) required = true) ∧
    (action.riskTier.isAutoSafe = true ∨ action.actionId ∈ approved)

theorem resolvePermission_of_get {reg : ToolRegistry σ} {a : ProposedAction} {tool : BaseTool σ}
    (h : reg.get a.tool = .ok tool) : resolvePermission reg a = requiredPermissionFor a tool := by
  rw [resolvePermission, h]; rfl

/-- What the resolution says when it succeeds: the derived permission of the validated arguments, the
    very arguments an execution would use, and no disagreement with the stamped one. -/
theorem resolvePermission_eq_ok {reg : ToolRegistry σ} {a : ProposedAction} {required : Option String}
    (h : resolvePermission reg a = .ok required) :
    ∃ tool args, reg.resolve a = .ok (tool, args) ∧ tool.permissionFor args = .ok required ∧
      ∀ stamped, a.requiredPermission = some stamped → required = some stamped := by
  simp only [resolvePermission, requiredPermissionFor, Fallible.bind_eq_ok] at h
  obtain ⟨tool, hg, args, hv, derived, hp, hmatch⟩ := h
  refine ⟨tool, args, ToolRegistry.resolve_eq_ok.mpr ⟨hg, hv⟩, ?_⟩
  cases hs : a.requiredPermission with
  | none =>
    simp only [hs, Fallible.pure_eq_ok] at hmatch
    exact ⟨hmatch ▸ hp, fun _ h => absurd h (by simp)⟩
  | some stamped =>
    simp only [hs] at hmatch
    split at hmatch
    next hd =>
      rw [Fallible.pure_eq_ok] at hmatch
      exact ⟨hmatch ▸ hp, fun s h => by rw [← hmatch, hd, h]⟩
    next => cases hmatch

/-- The log gains one `DENIED` or `SKIPPED` about the action, and nothing else. -/
def Refusal (a : ProposedAction) (log log' : AuditLog) : Prop :=
  ∃ e : AuditEvent, log' = { log with events := log.events ++ [e] } ∧ e.actionId = a.actionId ∧
    (e.eventType = .denied ∨ e.eventType = .skipped)

theorem refusal_denied (a : ProposedAction) (log : AuditLog) (who reason : String)
    (extra : Option AuditToolContext) : Refusal a log (log.denied a who reason extra) :=
  ⟨_, rfl, rfl, Or.inl rfl⟩

theorem refusal_skipped (a : ProposedAction) (log : AuditLog) (reason : String)
    (extra : Option AuditToolContext) : Refusal a log (log.skipped a reason extra) :=
  ⟨_, rfl, rfl, Or.inr rfl⟩

/-- The idempotency query cannot see a refusal. -/
theorem hasExecuted_of_refusal {a : ProposedAction} {log log' : AuditLog} (h : Refusal a log log')
    (i : String) : log'.hasExecuted i = log.hasExecuted i := by
  obtain ⟨e, rfl, -, ht⟩ := h
  have hcounts : countsAsExecuted e = false := if_neg (by rcases ht with ht | ht <;> rw [ht] <;> decide)
  rw [AuditLog.hasExecuted_append, hcounts, Bool.false_and, Bool.or_false]

/-- One round of the executor: a refusal behind a closed gate, or a guarded execution behind open
    ones. -/
theorem executorAction_cases (reg : ToolRegistry σ) (p : Principal) (approved : List String)
    (policy : PolicyStore) (a : ProposedAction) (st : RunState σ) :
    (¬MayRun reg p approved policy a ∧ ∃ audit, executorAction reg p approved policy a st =
      (none, st.withAudit audit) ∧ Refusal a st.audit audit) ∨
    (MayRun reg p approved policy a ∧ ∃ extra, executorAction reg p approved policy a st =
      (some (executeGuarded reg a p extra st).1, (executeGuarded reg a p extra st).2)) := by
  unfold executorAction
  cases hg : reg.get a.tool with
  | error e =>
    refine Or.inl ⟨?_, _, rfl, refusal_denied a _ _ _ _⟩
    rintro ⟨⟨required, hr, -⟩, -⟩
    rw [resolvePermission, hg] at hr; cases hr
  | ok tool =>
    have hres := resolvePermission_of_get hg
    cases hr : requiredPermissionFor a tool with
    | error e =>
      refine Or.inl ⟨?_, _, by simp only [hr]; rfl, refusal_denied a _ _ _ _⟩
      rintro ⟨⟨required, hok, -⟩, -⟩
      rw [hres, hr] at hok; cases hok
    | ok required =>
      have hperm : ∀ {r}, resolvePermission reg a = .ok r → r = required := by
        intro r hok; rw [hres, hr] at hok; cases hok; rfl
      simp only [hr]
      by_cases hc : policy.can (some p) required = true
      · by_cases ht : a.riskTier.isAutoSafe = true ∨ a.actionId ∈ approved
        · refine Or.inr ⟨⟨⟨required, hres.trans hr, hc⟩, ht⟩, some (tool.auditContext p), ?_⟩
          rw [if_neg (by simp [hc]), if_neg]
          rw [requiresApproval_tier]
          rcases ht with ht | ht <;> simp [ht]
        · refine Or.inl ⟨fun h => ht h.2, _, ?_, refusal_skipped a st.audit "not approved"
            (some (tool.auditContext p))⟩
          rw [not_or] at ht
          rw [if_neg (by simp [hc]), if_pos]
          rw [requiresApproval_tier]
          simpa using ht
      · refine Or.inl ⟨?_, _, if_pos (by simpa using hc), refusal_denied a _ _ _ _⟩
        rintro ⟨⟨r, hok, hcan⟩, -⟩
        exact hc (hperm hok ▸ hcan)

/-- The calls one round adds: none behind a closed gate or for an action that already executed, and
    otherwise exactly one, for the action itself. -/
theorem calls_executorAction (reg : ToolRegistry σ) (p : Principal) (approved : List String)
    (policy : PolicyStore) (a : ProposedAction) (st : RunState σ) :
    ∃ new, (executorAction reg p approved policy a st).2.calls = st.calls ++ new ∧
      (∀ c ∈ new, c.action = a ∧ c.principal = p ∧ MayRun reg p approved policy a ∧
        alreadyExecuted a st.audit = false) ∧
      (MayRun reg p approved policy a → alreadyExecuted a st.audit = false → new ≠ []) := by
  rcases executorAction_cases reg p approved policy a st with
    ⟨hno, audit, heq, -⟩ | ⟨hmay, extra, heq⟩
  · exact ⟨[], by rw [heq]; simp, by simp, fun h => absurd h hno⟩
  · rw [heq, calls_executeGuarded]
    refine ⟨_, rfl, ?_, ?_⟩
    · intro c hc
      split at hc
      next => exact absurd hc List.not_mem_nil
      next hex =>
        rw [List.mem_singleton.mp hc]
        exact ⟨rfl, rfl, hmay, by simpa using hex⟩
    · intro _ hex; simp [hex]

/-- A round about one action never changes the idempotency answer about another. -/
theorem hasExecuted_executorAction_ne {reg : ToolRegistry σ} {p : Principal} {approved : List String}
    {policy : PolicyStore} {a : ProposedAction} {st : RunState σ} {i : String} (h : a.actionId ≠ i) :
    (executorAction reg p approved policy a st).2.audit.hasExecuted i = st.audit.hasExecuted i := by
  rcases executorAction_cases reg p approved policy a st with
    ⟨-, audit, heq, hrefusal⟩ | ⟨-, extra, heq⟩
  · rw [heq]; exact hasExecuted_of_refusal hrefusal i
  · rw [heq]; exact hasExecuted_executeGuarded_ne h

/-- An action that counts as executed before a round counts as executed after it. -/
theorem alreadyExecuted_executorAction {reg : ToolRegistry σ} {p : Principal} {approved : List String}
    {policy : PolicyStore} {a b : ProposedAction} {st : RunState σ}
    (h : alreadyExecuted b (executorAction reg p approved policy a st).2.audit = false) :
    alreadyExecuted b st.audit = false := by
  rw [alreadyExecuted, Bool.and_eq_false_iff] at h ⊢
  refine h.imp_right fun h => ?_
  rw [← Bool.not_eq_true] at h ⊢
  rcases executorAction_cases reg p approved policy a st with
    ⟨-, audit, heq, hrefusal⟩ | ⟨-, extra, heq⟩
  · rw [heq] at h; rwa [← hasExecuted_of_refusal hrefusal]
  · rw [heq] at h; exact fun hex => h (hasExecuted_executeGuarded_mono hex)

/-! ### The whole list -/

section run
variable (reg : ToolRegistry σ) (p : Principal) (approved : List String) (policy : ℕ → PolicyStore)

theorem executorLoop_cons (i : ℕ) (a : ProposedAction) (as : List ProposedAction) (st : RunState σ) :
    (executorLoop reg p approved policy i (a :: as) st).2 =
      (executorLoop reg p approved policy (i + 1) as
        (executorAction reg p approved (policy i) a st).2).2 := rfl

/-- A call already made stays in the record. -/
theorem calls_executorLoop_mono {c : Call σ} : ∀ (as : List ProposedAction) (i : ℕ) (st : RunState σ),
    c ∈ st.calls → c ∈ (executorLoop reg p approved policy i as st).2.calls
  | [], _, _, h => h
  | a :: as, i, st, h => by
      rw [executorLoop_cons]
      refine calls_executorLoop_mono as (i + 1) _ ?_
      obtain ⟨new, heq, -⟩ := calls_executorAction reg p approved (policy i) a st
      rw [heq]; exact List.mem_append_left _ h

/-- Every call of a run is for a proposed action whose gates were open when its turn came, and which the
    log before the run does not count as executed. -/
theorem call_of_executorLoop {c : Call σ} : ∀ (as : List ProposedAction) (i : ℕ) (st : RunState σ),
    c ∈ (executorLoop reg p approved policy i as st).2.calls → c ∈ st.calls ∨
      ∃ k, as[k]? = some c.action ∧ c.principal = p ∧
        MayRun reg p approved (policy (i + k)) c.action ∧ alreadyExecuted c.action st.audit = false
  | [], _, _, h => Or.inl h
  | a :: as, i, st, h => by
      rw [executorLoop_cons] at h
      rcases call_of_executorLoop as (i + 1) _ h with h | ⟨k, hk, hp, hmay, hfresh⟩
      · obtain ⟨new, heq, hnew, -⟩ := calls_executorAction reg p approved (policy i) a st
        rw [heq, List.mem_append] at h
        refine h.imp_right fun h => ?_
        obtain ⟨rfl, hp, hmay, hfresh⟩ := hnew c h
        exact ⟨0, rfl, hp, hmay, hfresh⟩
      · rw [Nat.add_right_comm] at hmay
        exact Or.inr ⟨k + 1, hk, hp, hmay, alreadyExecuted_executorAction hfresh⟩

/-- An action whose gates are open in its turn is called, if it is ungated, or if nothing before it in
    the list and nothing in the log carries its id. -/
theorem calls_of_mayRun {a : ProposedAction} : ∀ (as : List ProposedAction) (i k : ℕ) (st : RunState σ),
    as[k]? = some a → MayRun reg p approved (policy (i + k)) a →
    (a.riskTier.isAutoSafe = true ∨
      (∀ b ∈ as.take k, b.actionId ≠ a.actionId) ∧ st.audit.hasExecuted a.actionId = false) →
    ∃ c ∈ (executorLoop reg p approved policy i as st).2.calls, c.action = a
  | b :: as, i, 0, st, hk, hmay, hfresh => by
      obtain rfl : b = a := by simpa using hk
      obtain ⟨new, heq, hnew, hne⟩ := calls_executorAction reg p approved (policy i) b st
      have hex : alreadyExecuted b st.audit = false := by
        rcases hfresh with h | ⟨-, h⟩ <;> simp [alreadyExecuted, h]
      obtain ⟨c, hc⟩ := List.exists_mem_of_ne_nil new (hne hmay hex)
      refine ⟨c, ?_, (hnew c hc).1⟩
      rw [executorLoop_cons]
      refine calls_executorLoop_mono reg p approved policy as (i + 1) _ ?_
      rw [heq]; exact List.mem_append_right _ hc
  | b :: as, i, k + 1, st, hk, hmay, hfresh => by
      rw [executorLoop_cons]
      refine calls_of_mayRun as (i + 1) k _ (by simpa using hk) (by rwa [Nat.add_right_comm]) ?_
      refine hfresh.imp_right fun ⟨hids, hlog⟩ => ⟨fun c hc => hids c ?_, ?_⟩
      · exact List.mem_cons_of_mem _ hc
      · rw [hasExecuted_executorAction_ne (hids b List.mem_cons_self), hlog]

/-- A list with a hole: the run over `pre`, then one round, then the run over `post`. -/
theorem executorLoop_append (post : List ProposedAction) : ∀ (pre : List ProposedAction) (i : ℕ)
    (st : RunState σ), executorLoop reg p approved policy i (pre ++ post) st =
      ((executorLoop reg p approved policy i pre st).1 ++
        (executorLoop reg p approved policy (i + pre.length) post
          (executorLoop reg p approved policy i pre st).2).1,
      (executorLoop reg p approved policy (i + pre.length) post
        (executorLoop reg p approved policy i pre st).2).2)
  | [], i, st => by simp [executorLoop]
  | a :: pre, i, st => by
      have hlen : i + 1 + pre.length = i + (pre.length + 1) := by omega
      simp only [List.cons_append, executorLoop, executorLoop_append post pre, List.length_cons,
        List.append_assoc, hlen]

end run

/-! ### The approval gate -/

/-- Everything that reaches `registry.execute` while `executor_node` runs. -/
def executorCalls (reg : ToolRegistry σ) (policy : ℕ → PolicyStore) (state : AgentState)
    (audit : AuditLog) (world : σ) : List (Call σ) :=
  (executorNode reg policy state { audit := audit, world := world }).2.calls

/-- The tool registered for the action declares itself auto-safe. -/
def DeclaredSafe (reg : ToolRegistry σ) (action : ProposedAction) : Prop :=
  ∃ tool, reg.get action.tool = .ok tool ∧ tool.riskTier.isAutoSafe = true

/-- The approval gate in terms of declared tiers: an action runs only if its tool is auto-safe or its id
    was approved, and routing past the approval node opens no way around that. -/
structure ApprovalGate (reg : ToolRegistry σ) (policy : ℕ → PolicyStore) (state : AgentState)
    (audit : AuditLog) (world : σ) : Prop where
  executes : ∀ c ∈ executorCalls reg policy state audit world,
    DeclaredSafe reg c.action ∨ c.action.actionId ∈ state.approvedActionIds
  routes : routeAfterPlanner state = .executor → ∀ a ∈ state.proposedActions, ¬DeclaredSafe reg a →
    a.actionId ∉ state.approvedActionIds →
    ∀ c ∈ executorCalls reg policy state audit world, c.action ≠ a

/-- No unapproved action stamped auto-safe names a registered tool of another tier that the principal
    is permitted to use. -/
def TierReconciled (reg : ToolRegistry σ) (policy : ℕ → PolicyStore) (state : AgentState) : Prop :=
  ∀ i a tool, state.proposedActions[i]? = some a → a.riskTier.isAutoSafe = true →
    a.actionId ∉ state.approvedActionIds → reg.get a.tool = .ok tool →
    (∃ required, requiredPermissionFor a tool = .ok required ∧
      (policy i).can (some (getCurrentPrincipal state)) required = true) →
    tool.riskTier.isAutoSafe = true

theorem mem_executorCalls {reg : ToolRegistry σ} {policy : ℕ → PolicyStore} {state : AgentState}
    {audit : AuditLog} {world : σ} {c : Call σ} (h : c ∈ executorCalls reg policy state audit world) :
    ∃ i, state.proposedActions[i]? = some c.action ∧ c.principal = getCurrentPrincipal state ∧
      MayRun reg (getCurrentPrincipal state) state.approvedActionIds (policy i) c.action ∧
      alreadyExecuted c.action audit = false := by
  rcases call_of_executorLoop reg _ _ policy _ 0 _ h with h | ⟨i, hi, hp, hmay, hfresh⟩
  · exact absurd h List.not_mem_nil
  · rw [Nat.zero_add] at hmay
    exact ⟨i, hi, hp, hmay, hfresh⟩

theorem approvalGate_of_tierReconciled {reg : ToolRegistry σ} {policy : ℕ → PolicyStore}
    {state : AgentState} {audit : AuditLog} {world : σ} (h : TierReconciled reg policy state) :
    ApprovalGate reg policy state audit world := by
  have hexec : ∀ c ∈ executorCalls reg policy state audit world,
      DeclaredSafe reg c.action ∨ c.action.actionId ∈ state.approvedActionIds := by
    intro c hc
    obtain ⟨i, hi, -, ⟨⟨required, hreq, hcan⟩, htier⟩, -⟩ := mem_executorCalls hc
    by_cases happ : c.action.actionId ∈ state.approvedActionIds
    · exact Or.inr happ
    obtain ⟨tool, args, hres, -, -⟩ := resolvePermission_eq_ok hreq
    have hget := (ToolRegistry.resolve_eq_ok.mp hres).1
    rw [resolvePermission_of_get hget] at hreq
    exact Or.inl ⟨tool, hget,
      h i c.action tool hi (htier.resolve_right happ) happ hget ⟨required, hreq, hcan⟩⟩
  refine ⟨hexec, ?_⟩
  rintro - a - hunsafe happ c hc rfl
  exact (hexec c hc).elim hunsafe happ

theorem tierReconciled_of_approvalGate {reg : ToolRegistry σ} {policy : ℕ → PolicyStore}
    {state : AgentState} {audit : AuditLog} {world : σ} (h : ApprovalGate reg policy state audit world) :
    TierReconciled reg policy state := by
  rintro i a tool hi hsafe happ hget ⟨required, hreq, hcan⟩
  have hmay : MayRun reg (getCurrentPrincipal state) state.approvedActionIds (policy (0 + i)) a := by
    rw [Nat.zero_add]
    exact ⟨⟨required, (resolvePermission_of_get hget).trans hreq, hcan⟩, Or.inl hsafe⟩
  obtain ⟨c, hc, rfl⟩ := calls_of_mayRun reg _ state.approvedActionIds policy
    state.proposedActions 0 i { audit := audit, world := world } hi hmay (Or.inl hsafe)
  obtain ⟨t, ht, hts⟩ := (h.executes c hc).resolve_right happ
  rw [hget, Except.ok.injEq] at ht
  rw [ht]; exact hts

/-- What `propose` builds is reconciled by construction: it stamps the declared tier. -/
theorem tierReconciled_of_propose {reg : ToolRegistry σ} {policy : ℕ → PolicyStore} {state : AgentState}
    (h : ∀ a ∈ state.proposedActions, ∃ i n args why, reg.propose i n args why = .ok a) :
    TierReconciled reg policy state := by
  intro i a tool hi hsafe _ hget _
  obtain ⟨id, n, args, why, hprop⟩ := h a (List.mem_of_getElem? hi)
  obtain ⟨t, ht, -, hname, htier, -⟩ := ToolRegistry.propose_eq_ok hprop
  rw [hname, ht, Except.ok.injEq] at hget
  rw [← hget, ← htier]; exact hsafe

/-- The executor enforces the stamped tier. It enforces the declared one exactly when no unapproved,
    permitted action carries an auto-safe stamp on a tool of another tier. -/
theorem approval_gate_iff (reg : ToolRegistry σ) (policy : ℕ → PolicyStore) (state : AgentState)
    (audit : AuditLog) (world : σ) :
    ApprovalGate reg policy state audit world ↔ TierReconciled reg policy state :=
  ⟨tierReconciled_of_approvalGate, approvalGate_of_tierReconciled⟩

/-- A plan that stamps a `SEND` tool as a read: the executor runs it, unapproved. -/
theorem approval_gate_fails : ¬ApprovalGate (countingRegistry .send) (fun _ => DEFAULT_POLICY)
    { principal := some { userId := "alice", roles := ["admin"] }
      proposedActions := [countingAction "a1" .read] } freshLog 0 := by
  intro h
  have := tierReconciled_of_approvalGate h 0 (countingAction "a1" .read) (countingTool .send)
    rfl rfl List.not_mem_nil rfl ⟨some "tool:count", rfl, by decide⟩
  exact absurd this (by decide)

/-! ### The permission gate -/

/-- The check that both nodes make: the tool is registered, and the principal holds the permission that
    the very arguments to be executed derive. -/
def Permitted (reg : ToolRegistry σ) (principal : Principal) (policy : PolicyStore)
    (action : ProposedAction) : Prop :=
  ∃ tool args required, reg.resolve action = .ok (tool, args) ∧
    tool.permissionFor args = .ok required ∧ policy.can (some principal) required = true

theorem permitted_of_resolvePermission {reg : ToolRegistry σ} {p : Principal} {policy : PolicyStore}
    {a : ProposedAction} {required : Option String} (h : resolvePermission reg a = .ok required)
    (hcan : policy.can (some p) required = true) : Permitted reg p policy a := by
  obtain ⟨tool, args, hres, hperm, -⟩ := resolvePermission_eq_ok h
  exact ⟨tool, args, required, hres, hperm, hcan⟩

/-- One round of the planner surfaces only a permitted action, the action itself. -/
theorem permitted_of_plannerAction {reg : ToolRegistry σ} {p : Principal} {policy : PolicyStore}
    {a b : ProposedAction} {audit : AuditLog} (h : (plannerAction reg p policy a audit).1 = some b) :
    b = a ∧ Permitted reg p policy a := by
  unfold plannerAction at h
  cases hr : resolvePermission reg a with
  | error e => simp [hr] at h
  | ok required =>
    by_cases hc : policy.can (some p) required = true
    · simp only [hr, hc, Bool.not_true, Bool.false_eq_true, if_false, Option.some.injEq] at h
      exact ⟨h.symm, permitted_of_resolvePermission hr hc⟩
    · simp [hr, hc] at h

/-- Every action the planner's loop keeps was permitted when its turn came. -/
theorem permitted_of_plannerLoop {reg : ToolRegistry σ} {p : Principal} {policy : ℕ → PolicyStore}
    {b : ProposedAction} : ∀ (as : List ProposedAction) (i : ℕ) (audit : AuditLog),
    b ∈ (plannerLoop reg p policy i as audit).1 →
      ∃ k, as[k]? = some b ∧ Permitted reg p (policy (i + k)) b
  | [], _, _, h => absurd h List.not_mem_nil
  | a :: as, i, audit, h => by
      rw [plannerLoop, List.mem_append, Option.mem_toList] at h
      rcases h with h | h
      · obtain ⟨rfl, hperm⟩ := permitted_of_plannerAction h
        exact ⟨0, rfl, hperm⟩
      · obtain ⟨k, hk, hperm⟩ := permitted_of_plannerLoop as (i + 1) _ h
        rw [Nat.add_right_comm] at hperm
        exact ⟨k + 1, hk, hperm⟩

/-- What `planner_node` returns: the kept part of the strategy's plan, and the log of its loop. -/
theorem plannerNode_eq_ok {planFn : PlanFn σ} {reg : ToolRegistry σ} {kg : KnowledgeGraph}
    {policy : ℕ → PolicyStore} {state state' : AgentState} {st st' : RunState σ}
    (h : plannerNode planFn reg kg policy state st = .ok (state', st')) :
    ∃ plan world', (∃ context,
        kg.query (some (getCurrentPrincipal state)) (lastUserText state.messages) 5 = .ok context ∧
        planFn (lastUserText state.messages) reg context st.world = (.ok plan, world')) ∧
      state'.proposedActions =
        (plannerLoop reg (getCurrentPrincipal state) policy 0 plan st.audit).1 ∧
      st'.calls = st.calls ∧
      st'.audit = (plannerLoop reg (getCurrentPrincipal state) policy 0 plan st.audit).2 ∧
      state'.actionResults = state.actionResults := by
  unfold plannerNode at h
  obtain ⟨context, hquery, h⟩ := Fallible.bind_eq_ok.mp h
  split at h
  next e w heq => cases h
  next plan w heq =>
    simp only [Except.ok.injEq, Prod.mk.injEq] at h
    obtain ⟨rfl, rfl⟩ := h
    exact ⟨plan, w, ⟨context, hquery, heq⟩, rfl, rfl, rfl, rfl⟩

/-- An action whose permission cannot be resolved costs the executor one denial and nothing else. -/
theorem executorAction_of_error {reg : ToolRegistry σ} {a : ProposedAction} {e : PyError}
    (h : resolvePermission reg a = .error e) (p : Principal) (approved : List String)
    (policy : PolicyStore) (st : RunState σ) :
    ∃ reason extra, executorAction reg p approved policy a st =
      (none, st.withAudit (st.audit.denied a p.userId reason extra)) := by
  unfold executorAction
  cases hg : reg.get a.tool with
  | error e' => exact ⟨_, _, rfl⟩
  | ok tool =>
    rw [resolvePermission_of_get hg] at h
    exact ⟨_, _, by simp only [h]; rfl⟩

/-- The same for the planner, after the proposal was recorded. -/
theorem plannerAction_of_error {reg : ToolRegistry σ} {p : Principal} {policy : PolicyStore}
    {a : ProposedAction} {e : PyError} (audit : AuditLog) (h : resolvePermission reg a = .error e) :
    plannerAction reg p policy a audit = (none, (audit.proposed a).denied a p.userId
      "could not resolve required permission" none) := by
  rw [plannerAction, h]

theorem plannerLoop_append (reg : ToolRegistry σ) (p : Principal) (policy : ℕ → PolicyStore)
    (post : List ProposedAction) : ∀ (pre : List ProposedAction) (i : ℕ) (audit : AuditLog),
    plannerLoop reg p policy i (pre ++ post) audit =
      ((plannerLoop reg p policy i pre audit).1 ++
        (plannerLoop reg p policy (i + pre.length) post (plannerLoop reg p policy i pre audit).2).1,
      (plannerLoop reg p policy (i + pre.length) post (plannerLoop reg p policy i pre audit).2).2)
  | [], i, audit => by simp [plannerLoop]
  | a :: pre, i, audit => by
      have hlen : i + 1 + pre.length = i + (pre.length + 1) := by omega
      simp only [List.cons_append, plannerLoop, plannerLoop_append reg p policy post pre,
        List.length_cons, List.append_assoc, hlen]

/-- A plan with an unresolvable action in it: the planner drops that action with a denial, and plans
    the actions before and after it as if it were not there. -/
theorem plannerLoop_skips {reg : ToolRegistry σ} {a : ProposedAction} {e : PyError}
    (h : resolvePermission reg a = .error e) (p : Principal) (policy : ℕ → PolicyStore)
    (pre post : List ProposedAction) (i : ℕ) (audit : AuditLog) :
    plannerLoop reg p policy i (pre ++ a :: post) audit =
      let (kept, audit) := plannerLoop reg p policy i pre audit
      let audit := (audit.proposed a).denied a p.userId "could not resolve required permission" none
      let (rest, audit) := plannerLoop reg p policy (i + pre.length + 1) post audit
      (kept ++ rest, audit) := by
  rw [plannerLoop_append]
  simp only [plannerLoop, plannerAction_of_error _ h, Option.toList_none, List.nil_append]

/-- The executor's run over such a list: the run over `pre`, one denial, the run over `post`. -/
theorem executorLoop_skips {reg : ToolRegistry σ} {a : ProposedAction} {e : PyError}
    (h : resolvePermission reg a = .error e) (p : Principal) (approved : List String)
    (policy : ℕ → PolicyStore) (pre post : List ProposedAction) (i : ℕ) (st : RunState σ) :
    ∃ reason extra, executorLoop reg p approved policy i (pre ++ a :: post) st =
      let (results, st) := executorLoop reg p approved policy i pre st
      let st := st.withAudit (st.audit.denied a p.userId reason extra)
      let (rest, st) := executorLoop reg p approved policy (i + pre.length + 1) post st
      (results ++ rest, st) := by
  obtain ⟨reason, extra, hact⟩ := executorAction_of_error h p approved
    (policy (i + pre.length)) (executorLoop reg p approved policy i pre st).2
  refine ⟨reason, extra, ?_⟩
  rw [executorLoop_append]
  simp only [executorLoop, hact, Option.toList_none, List.nil_append]

/-- Both nodes let an action through only while its tool is registered and the principal holds the
    permission its arguments derive at that moment; a failure to resolve the permission denies that
    action, runs nothing and stops nothing. -/
theorem permission_gate (reg : ToolRegistry σ) (policy : ℕ → PolicyStore) :
    (∀ state audit world, ∀ c ∈ executorCalls reg policy state audit world,
      c.principal = getCurrentPrincipal state ∧
      ∃ i, state.proposedActions[i]? = some c.action ∧ Permitted reg c.principal (policy i) c.action) ∧
    (∀ planFn kg state st state' st', plannerNode planFn reg kg policy state st = .ok (state', st') →
      st'.calls = st.calls ∧
      ∃ context plan world',
        kg.query (some (getCurrentPrincipal state)) (lastUserText state.messages) 5 = .ok context ∧
        planFn (lastUserText state.messages) reg context st.world = (.ok plan, world') ∧
        ∀ a ∈ state'.proposedActions, ∃ i, plan[i]? = some a ∧
          Permitted reg (getCurrentPrincipal state) (policy i) a) ∧
    (∀ a e, resolvePermission reg a = .error e →
      (∀ state audit world, ∀ c ∈ executorCalls reg policy state audit world, c.action ≠ a) ∧
      (∀ p approved pre post i st, ∃ reason extra,
        executorLoop reg p approved policy i (pre ++ a :: post) st =
          let (results, st) := executorLoop reg p approved policy i pre st
          let st := st.withAudit (st.audit.denied a p.userId reason extra)
          let (rest, st) := executorLoop reg p approved policy (i + pre.length + 1) post st
          (results ++ rest, st)) ∧
      (∀ p pre post i audit, plannerLoop reg p policy i (pre ++ a :: post) audit =
        let (kept, audit) := plannerLoop reg p policy i pre audit
        let audit := (audit.proposed a).denied a p.userId "could not resolve required permission" none
        let (rest, audit) := plannerLoop reg p policy (i + pre.length + 1) post audit
        (kept ++ rest, audit))) := by
  refine ⟨?_, ?_, ?_⟩
  · intro state audit world c hc
    obtain ⟨i, hi, hp, ⟨⟨required, hreq, hcan⟩, -⟩, -⟩ := mem_executorCalls hc
    exact ⟨hp, i, hi, hp ▸ permitted_of_resolvePermission hreq hcan⟩
  · intro planFn kg state st state' st' h
    obtain ⟨plan, world', ⟨context, hquery, hplan⟩, hkept, hcalls, -⟩ := plannerNode_eq_ok h
    refine ⟨hcalls, context, plan, world', hquery, hplan, fun a ha => ?_⟩
    rw [hkept] at ha
    obtain ⟨k, hk, hperm⟩ := permitted_of_plannerLoop plan 0 st.audit ha
    rw [Nat.zero_add] at hperm
    exact ⟨k, hk, hperm⟩
  · intro a e h
    refine ⟨?_, fun p approved => executorLoop_skips h p approved policy,
      fun p => plannerLoop_skips h p policy⟩
    rintro state audit world c hc rfl
    obtain ⟨-, -, -, ⟨⟨required, hreq, -⟩, -⟩, -⟩ := mem_executorCalls hc
    rw [h] at hreq; cases hreq

end Atlas
