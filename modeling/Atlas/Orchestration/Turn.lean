import Atlas.Orchestration.Decisions

/-! One turn of the agent, from the initial state to its end: planner, routing, the pause for a decision,
    executor. Every action the planner was given is accounted for in the log of the turn: one `PROPOSED`,
    then one event that ends it, and a result exactly where that event says that the tool was run or
    replayed (`turn_accounted`). Other turns may use the log and the world between two nodes, and the
    policy may change. -/

namespace Atlas

variable {σ : Type}

/-- The state of a new request. -/
def initialState (userMessage : String) (principal : Option Principal) : AgentState where
  messages := [⟨"human", userMessage⟩]
  principal := some (principal.getD Principal.anonymous)

/-- The input of a turn over the state of its thread: messages are added, other channels overwritten. -/
def AgentState.update (state input : AgentState) : AgentState :=
  { input with messages := state.messages ++ input.messages }

/-- What the nodes are built from, and what others do before a node runs. -/
structure AgentGraph (σ : Type) where
  planFn : PlanFn σ
  registry : ToolRegistry σ
  knowledge : KnowledgeGraph
  order : SetOrder
  plannerPolicy : ℕ → PolicyStore
  executorPolicy : ℕ → PolicyStore
  others : Route → RunState σ → RunState σ

/-- What the planning strategy answers in a state. -/
def AgentGraph.plan (g : AgentGraph σ) (state : AgentState) (world : σ) :
    Except PyError (List ProposedAction) × σ :=
  match g.knowledge.query (some (getCurrentPrincipal state)) (lastUserText state.messages) 5 with
  | .error e => (.error e, world)
  | .ok kgContext => g.planFn (lastUserText state.messages) g.registry kgContext world

/-- The events a node appended. -/
def newEvents (before after : AuditLog) : List AuditEvent := after.events.drop before.events.length

/-- A turn that is over: its state, and the events its nodes appended. -/
structure Turn (σ : Type) where
  state : AgentState
  run : RunState σ
  events : List AuditEvent

/-- The executor's part of a turn. -/
def AgentGraph.execute (g : AgentGraph σ) (state : AgentState) (st : RunState σ)
    (events : List AuditEvent) : Turn σ :=
  let before := g.others .executor st
  let (state, after) := executorNode g.registry g.executorPolicy state before
  ⟨state, after, events ++ newEvents before.audit after.audit⟩

/-- The graph up to the responder, with the human's payload `raw` where it pauses. -/
def AgentGraph.invoke (g : AgentGraph σ) (raw : Json) (state : AgentState) (st : RunState σ) :
    Except PyError (Turn σ) := do
  let (state, planned) ← plannerNode g.planFn g.registry g.knowledge g.plannerPolicy state st
  let events := newEvents st.audit planned.audit
  match routeAfterPlanner state with
  | .responder => return ⟨state, planned, events⟩
  | .executor => return g.execute state planned events
  | .approval =>
    let before := g.others .approval planned
    let (state, audit) ← approvalNode g.order raw state before.audit
    return g.execute state (before.withAudit audit) (events ++ newEvents before.audit audit)

/-! ### The account of an action -/

/-- The kinds of event that end an action. -/
def AuditEventType.isTerminal : AuditEventType → Bool
  | denied | skipped | executed | failed | replaySkipped => true
  | proposed | approved | rejected | ingested => false

/-- The kinds of event that end an action with a result. -/
def AuditEventType.hasResult : AuditEventType → Bool
  | executed | failed | replaySkipped => true
  | proposed | approved | rejected | skipped | denied | ingested => false

/-- The event belongs to the account of an action. -/
def accountsFor (i : String) (e : AuditEvent) : Bool :=
  e.actionId == i && (e.eventType == .proposed || e.eventType.isTerminal)

def accountOf (i : String) (events : List AuditEvent) : List AuditEvent := events.filter (accountsFor i)

/-- The account of an action ends with a result. -/
def resultIn (events : List AuditEvent) (i : String) : Bool :=
  events.any fun e => e.actionId == i && e.eventType.hasResult

/-- Every action of the plan is proposed and then ended, once each; nothing else is ended; and the
    results are those of the actions ended with one, in the order of the plan. -/
structure TurnAccounted (plan : List ProposedAction) (turn : Turn σ) : Prop where
  ended : ∀ a ∈ plan, ∃ p t, accountOf a.actionId turn.events = [p, t] ∧ p.eventType = .proposed ∧
    t.eventType.isTerminal = true
  others : ∀ e ∈ turn.events, e.eventType.isTerminal = true → e.actionId ∈ plan.map (·.actionId)
  results : turn.state.actionResults.map (·.actionId) =
    (plan.filter fun a => resultIn turn.events a.actionId).map (·.actionId)

theorem accountOf_append (i : String) (es es' : List AuditEvent) :
    accountOf i (es ++ es') = accountOf i es ++ accountOf i es' := List.filter_append ..

theorem resultIn_append (es es' : List AuditEvent) (i : String) :
    resultIn (es ++ es') i = (resultIn es i || resultIn es' i) := List.any_append

/-- Events about other actions are not in the account of this one. -/
theorem accountOf_eq_nil {i : String} {es : List AuditEvent} (h : ∀ e ∈ es, e.actionId ≠ i) :
    accountOf i es = [] := by
  refine List.filter_eq_nil_iff.mpr fun e he hacc => ?_
  simp only [accountsFor, Bool.and_eq_true, beq_iff_eq] at hacc
  exact h e he hacc.1

theorem resultIn_eq_false {i : String} {es : List AuditEvent} (h : ∀ e ∈ es, e.actionId ≠ i) :
    resultIn es i = false := by
  refine List.any_eq_false.mpr fun e he hres => ?_
  simp only [Bool.and_eq_true, beq_iff_eq] at hres
  exact h e he hres.1

theorem newEvents_append {before after : AuditLog} {new : List AuditEvent}
    (h : after.events = before.events ++ new) : newEvents before after = new := by
  rw [newEvents, h, List.drop_left]

/-! ### What one round appends -/

/-- The planner proposes the action and keeps it, or denies it at once. -/
theorem plannerAction_account (reg : ToolRegistry σ) (p : Principal) (policy : PolicyStore)
    (a : ProposedAction) (audit : AuditLog) :
    ∃ new, (plannerAction reg p policy a audit).2.events = audit.events ++ new ∧
      (∀ e ∈ new, e.actionId = a.actionId ∧ e.eventType.hasResult = false) ∧
      ∃ e, e.eventType = .proposed ∧
        ((plannerAction reg p policy a audit).1 = some a ∧ accountOf a.actionId new = [e] ∨
          (plannerAction reg p policy a audit).1 = none ∧
            ∃ t, accountOf a.actionId new = [e, t] ∧ t.eventType = .denied) := by
  have hone : ∀ e : AuditEvent, e.actionId = a.actionId → e.eventType = .proposed →
      accountOf a.actionId [e] = [e] := by
    intro e hid he
    simp [accountOf, accountsFor, hid, he]
  have htwo : ∀ e t : AuditEvent, e.actionId = a.actionId → t.actionId = a.actionId →
      e.eventType = .proposed → t.eventType = .denied → accountOf a.actionId [e, t] = [e, t] := by
    intro e t hid hid' he ht
    simp [accountOf, accountsFor, hid, hid', he, ht, AuditEventType.isTerminal]
  unfold plannerAction
  cases resolvePermission reg a with
  | error _ =>
    refine ⟨[_, _], List.append_assoc .., ?_, _, rfl,
      Or.inr ⟨rfl, _, htwo _ _ rfl rfl rfl rfl, rfl⟩⟩
    simp [AuditEventType.hasResult]
  | ok required =>
    by_cases hcan : policy.can (some p) required = true
    · simp only [hcan, Bool.not_true, Bool.false_eq_true, if_false]
      refine ⟨[_], rfl, ?_, _, rfl, Or.inl ⟨trivial, hone _ rfl rfl⟩⟩
      simp [AuditEventType.hasResult]
    · simp only [hcan, Bool.not_false, if_true]
      refine ⟨[_, _], List.append_assoc .., ?_, _, rfl,
        Or.inr ⟨trivial, _, htwo _ _ rfl rfl rfl rfl, rfl⟩⟩
      simp [AuditEventType.hasResult]

/-- A guarded execution appends one event with a result, about the action. -/
theorem executeGuarded_account (reg : ToolRegistry σ) (a : ProposedAction) (p : Principal)
    (extra : Option AuditToolContext) (st : RunState σ) :
    (executeGuarded reg a p extra st).1.actionId = a.actionId ∧
    ∃ e, (executeGuarded reg a p extra st).2.audit.events = st.audit.events ++ [e] ∧
      e.actionId = a.actionId ∧ e.eventType.isTerminal = true ∧ e.eventType.hasResult = true := by
  rw [executeGuarded]
  split
  · exact ⟨rfl, _, rfl, rfl, rfl, rfl⟩
  · refine ⟨ToolRegistry.actionId_execute .., ?_⟩
    have hid := ToolRegistry.actionId_execute reg a p st.world
    simp only [recordOutcome]
    split
    · exact ⟨_, rfl, hid, rfl, rfl⟩
    · exact ⟨_, rfl, hid, rfl, rfl⟩

/-- The executor ends the action, with a result exactly where it returns one. -/
theorem executorAction_account (reg : ToolRegistry σ) (p : Principal) (approved : List String)
    (policy : PolicyStore) (a : ProposedAction) (st : RunState σ) :
    ∃ e, (executorAction reg p approved policy a st).2.audit.events = st.audit.events ++ [e] ∧
      e.actionId = a.actionId ∧ e.eventType.isTerminal = true ∧
      (executorAction reg p approved policy a st).1.toList.map (·.actionId) =
        if e.eventType.hasResult then [a.actionId] else [] := by
  rcases executorAction_cases reg p approved policy a st with
    ⟨-, audit, heq, e, rfl, hid, ht⟩ | ⟨-, extra, heq⟩
  · rw [heq]
    refine ⟨e, rfl, hid, ?_, ?_⟩
    · rcases ht with ht | ht <;> rw [ht] <;> rfl
    · rcases ht with ht | ht <;> rw [ht] <;> rfl
  · obtain ⟨hid, e, hevents, heid, hend, hres⟩ := executeGuarded_account reg a p extra st
    rw [heq]
    refine ⟨e, hevents, heid, hend, ?_⟩
    rw [hres, if_pos rfl, Option.toList_some, List.map_singleton, hid]

/-! ### Whole lists -/

/-- The planner's account of a plan: every action is proposed, and denied at once unless it is kept. -/
structure PlannerAccount (plan kept : List ProposedAction) (events : List AuditEvent) : Prop where
  sublist : kept.Sublist plan
  about : ∀ e ∈ events, e.actionId ∈ plan.map (·.actionId) ∧ e.eventType.hasResult = false
  account : ∀ a ∈ plan, ∃ e, e.eventType = .proposed ∧
    (a ∈ kept ∧ accountOf a.actionId events = [e] ∨
      a ∉ kept ∧ ∃ t, accountOf a.actionId events = [e, t] ∧ t.eventType = .denied)

/-- The executor's account of a list: every action is ended, and the results are those of the actions
    ended with one. -/
structure ExecutorAccount (as : List ProposedAction) (results : List ActionResult)
    (events : List AuditEvent) : Prop where
  about : ∀ e ∈ events, e.actionId ∈ as.map (·.actionId)
  account : ∀ a ∈ as, ∃ t, accountOf a.actionId events = [t] ∧ t.eventType.isTerminal = true
  results : results.map (·.actionId) =
    (as.filter fun a => resultIn events a.actionId).map (·.actionId)

theorem plannerLoop_account (reg : ToolRegistry σ) (p : Principal) (policy : ℕ → PolicyStore)
    (as : List ProposedAction) (i : ℕ) (audit : AuditLog) (hids : (as.map (·.actionId)).Nodup) :
    ∃ new, (plannerLoop reg p policy i as audit).2.events = audit.events ++ new ∧
      PlannerAccount as (plannerLoop reg p policy i as audit).1 new := by
  induction as generalizing i audit with
  | nil => exact ⟨[], by simp [plannerLoop], List.Sublist.refl _, by simp, by simp⟩
  | cons a as ih =>
    rw [List.map_cons, List.nodup_cons] at hids
    have hother : ∀ b ∈ as, a.actionId ≠ b.actionId := fun b hb heq =>
      hids.1 (heq ▸ List.mem_map_of_mem hb)
    obtain ⟨new, hevents, hnew, e, he, hkept⟩ := plannerAction_account reg p (policy i) a audit
    obtain ⟨rest, hrest, hacc⟩ := ih (i + 1) (plannerAction reg p (policy i) a audit).2 hids.2
    have hrestnil : accountOf a.actionId rest = [] :=
      accountOf_eq_nil fun e he heq => hids.1 (heq ▸ (hacc.about e he).1)
    simp only [plannerLoop]
    refine ⟨new ++ rest, by rw [hrest, hevents, List.append_assoc], ?_, ?_, ?_⟩
    · rcases hkept with ⟨hkept, -⟩ | ⟨hkept, -⟩
      · rw [hkept]; exact hacc.sublist.cons_cons a
      · rw [hkept]; exact hacc.sublist.cons a
    · intro e he
      rcases List.mem_append.mp he with he | he
      · exact ⟨by rw [(hnew e he).1]; exact List.mem_cons_self, (hnew e he).2⟩
      · exact ⟨List.mem_cons_of_mem _ (hacc.about e he).1, (hacc.about e he).2⟩
    · intro b hb
      rcases List.mem_cons.mp hb with rfl | hb
      · refine ⟨e, he, ?_⟩
        rw [accountOf_append, hrestnil, List.append_nil]
        rcases hkept with ⟨hkept, hacc'⟩ | ⟨hkept, hacc'⟩
        · rw [hkept]; exact Or.inl ⟨List.mem_cons_self, hacc'⟩
        · rw [hkept]
          exact Or.inr ⟨fun hmem => hother b (hacc.sublist.subset hmem) rfl, hacc'⟩
      · have hnil : accountOf b.actionId new = [] :=
          accountOf_eq_nil fun e he heq => hother b hb ((hnew e he).1.symm.trans heq)
        have hmem : ∀ kept : List ProposedAction,
            b ∈ (plannerAction reg p (policy i) a audit).1.toList ++ kept ↔ b ∈ kept := by
          intro kept
          rcases hkept with ⟨hkept, -⟩ | ⟨hkept, -⟩ <;> rw [hkept]
          · refine List.mem_cons.trans (or_iff_right fun heq => ?_)
            exact hother b hb (by rw [heq])
          · rfl
        rw [accountOf_append, hnil, List.nil_append, hmem]
        exact hacc.account b hb

theorem executorLoop_account (reg : ToolRegistry σ) (p : Principal) (approved : List String)
    (policy : ℕ → PolicyStore) (as : List ProposedAction) (i : ℕ) (st : RunState σ)
    (hids : (as.map (·.actionId)).Nodup) :
    ∃ new, (executorLoop reg p approved policy i as st).2.audit.events = st.audit.events ++ new ∧
      ExecutorAccount as (executorLoop reg p approved policy i as st).1 new := by
  induction as generalizing i st with
  | nil => exact ⟨[], by simp [executorLoop], by simp, by simp, rfl⟩
  | cons a as ih =>
    rw [List.map_cons, List.nodup_cons] at hids
    have hother : ∀ b ∈ as, a.actionId ≠ b.actionId := fun b hb heq =>
      hids.1 (heq ▸ List.mem_map_of_mem hb)
    obtain ⟨e, hevents, hid, hend, hresult⟩ := executorAction_account reg p approved (policy i) a st
    obtain ⟨rest, hrest, hacc⟩ := ih (i + 1) (executorAction reg p approved (policy i) a st).2 hids.2
    have hnotin : ∀ e ∈ rest, e.actionId ≠ a.actionId := fun e he heq => hids.1 (heq ▸ hacc.about e he)
    simp only [executorLoop]
    refine ⟨[e] ++ rest, by rw [hrest, hevents, List.append_assoc], ?_, ?_, ?_⟩
    · intro e' he'
      rcases List.mem_append.mp he' with he' | he'
      · rw [List.mem_singleton.mp he', hid]; exact List.mem_cons_self
      · exact List.mem_cons_of_mem _ (hacc.about e' he')
    · intro b hb
      rcases List.mem_cons.mp hb with rfl | hb
      · refine ⟨e, ?_, hend⟩
        rw [accountOf_append, accountOf_eq_nil hnotin, List.append_nil]
        simp [accountOf, accountsFor, hid, hend]
      · rw [accountOf_append, accountOf_eq_nil, List.nil_append]
        · exact hacc.account b hb
        · simpa [hid] using hother b hb
    · have hhead : resultIn ([e] ++ rest) a.actionId = e.eventType.hasResult := by
        rw [resultIn_append, resultIn_eq_false hnotin, Bool.or_false]
        simp [resultIn, hid]
      have htail : as.filter (fun b => resultIn ([e] ++ rest) b.actionId) =
          as.filter fun b => resultIn rest b.actionId := by
        refine List.filter_congr fun b hb => ?_
        rw [resultIn_append, resultIn_eq_false, Bool.false_or]
        simpa [hid] using hother b hb
      rw [List.map_append, hresult, hacc.results, List.filter_cons, hhead, htail]
      cases e.eventType.hasResult <;> rfl

/-! ### The whole turn -/

/-- Decisions are in no account. -/
theorem account_of_decisions {new : List AuditEvent}
    (h : ∀ e ∈ new, e.eventType = .approved ∨ e.eventType = .rejected) (i : String) :
    accountOf i new = [] ∧ resultIn new i = false := by
  refine ⟨List.filter_eq_nil_iff.mpr fun e he => ?_, List.any_eq_false.mpr fun e he => ?_⟩
  · rcases h e he with ht | ht <;> simp [accountsFor, ht, AuditEventType.isTerminal]
  · rcases h e he with ht | ht <;> simp [ht, AuditEventType.hasResult]

/-- A part of a list without repeats is filtered like the whole, if nothing outside it passes. -/
theorem filter_eq_of_sublist {α : Type} {part whole : List α} {pass : α → Bool} (hsub : part.Sublist whole)
    (hnodup : whole.Nodup) (hpass : ∀ a ∈ whole, pass a = true → a ∈ part) :
    part.filter pass = whole.filter pass := by
  refine (hsub.filter pass).eq_of_length_le ?_
  refine (List.subperm_of_subset (hnodup.filter pass) fun a ha => ?_).length_le
  obtain ⟨hmem, hp⟩ := List.mem_filter.mp ha
  exact List.mem_filter.mpr ⟨hpass a hmem hp, hp⟩

/-- The accounts of planner and executor make that of the turn, whatever was decided in between. -/
theorem accounted_of_parts {plan kept : List ProposedAction} {planned decided executed : List AuditEvent}
    {state : AgentState} {run : RunState σ} (hids : (plan.map (·.actionId)).Nodup)
    (hp : PlannerAccount plan kept planned)
    (hdecided : ∀ e ∈ decided, e.eventType = .approved ∨ e.eventType = .rejected)
    (hx : ExecutorAccount kept state.actionResults executed) :
    TurnAccounted plan ⟨state, run, planned ++ decided ++ executed⟩ := by
  -- the executor is silent about an action the planner dropped
  have hsilent : ∀ a ∈ plan, a ∉ kept → ∀ e ∈ executed, e.actionId ≠ a.actionId := by
    intro a ha hnot e he heq
    obtain ⟨b, hb, hbid⟩ := List.mem_map.mp (hx.about e he)
    have hab := List.inj_on_of_nodup_map hids (hp.sublist.subset hb) ha (hbid.trans heq)
    exact hnot (hab ▸ hb)
  have hplanned : ∀ i, resultIn planned i = false := by
    intro i
    refine List.any_eq_false.mpr fun e he => ?_
    simp [(hp.about e he).2]
  constructor
  · intro a ha
    obtain ⟨e, he, hcases⟩ := hp.account a ha
    simp only [accountOf_append, (account_of_decisions hdecided a.actionId).1, List.append_nil]
    rcases hcases with ⟨hkept, hacc⟩ | ⟨hnot, t, hacc, ht⟩
    · obtain ⟨t, hend, hterm⟩ := hx.account a hkept
      exact ⟨e, t, by rw [hacc, hend]; rfl, he, hterm⟩
    · rw [hacc, accountOf_eq_nil (hsilent a ha hnot)]
      exact ⟨e, t, rfl, he, by rw [ht]; rfl⟩
  · intro e he hterm
    simp only [List.mem_append] at he
    rcases he with (he | he) | he
    · exact (hp.about e he).1
    · rcases hdecided e he with ht | ht <;> rw [ht] at hterm <;> cases hterm
    · exact (hp.sublist.map _).subset (hx.about e he)
  · simp only [resultIn_append, hplanned, (account_of_decisions hdecided _).2, Bool.false_or, hx.results]
    rw [filter_eq_of_sublist hp.sublist hids.of_map fun a ha hres => ?_]
    by_contra hnot
    rw [resultIn_eq_false (hsilent a ha hnot)] at hres
    cases hres

/-- What the executor's part of a turn adds to it. -/
theorem execute_eq (g : AgentGraph σ) (state : AgentState) (st : RunState σ) (events : List AuditEvent)
    (hids : (state.proposedActions.map (·.actionId)).Nodup) :
    ∃ state' run executed, g.execute state st events = ⟨state', run, events ++ executed⟩ ∧
      ExecutorAccount state.proposedActions state'.actionResults executed := by
  obtain ⟨new, hnew, hacc⟩ := executorLoop_account g.registry (getCurrentPrincipal state)
    state.approvedActionIds g.executorPolicy state.proposedActions 0 (g.others .executor st) hids
  have hexec : g.execute state st events = ⟨(executorNode g.registry g.executorPolicy state
      (g.others .executor st)).1, (executorNode g.registry g.executorPolicy state
      (g.others .executor st)).2, events ++ new⟩ := by
    rw [← newEvents_append hnew]; rfl
  exact ⟨_, _, new, hexec, hacc⟩

/-- A turn that completes accounts for every action of its plan. -/
theorem turn_accounted (g : AgentGraph σ) (raw : Json) (thread : AgentState) (userMessage : String)
    (principal : Option Principal) (st : RunState σ) (plan : List ProposedAction) (world : σ)
    (turn : Turn σ)
    (hplan : g.plan (thread.update (initialState userMessage principal)) st.world = (.ok plan, world))
    (hids : (plan.map (·.actionId)).Nodup)
    (hturn : g.invoke raw (thread.update (initialState userMessage principal)) st = .ok turn) :
    TurnAccounted plan turn := by
  simp only [AgentGraph.invoke, Fallible.bind_eq_ok] at hturn
  obtain ⟨⟨state, planned⟩, hnode, hturn⟩ := hturn
  obtain ⟨plan', world', ⟨context, hquery, hplan'⟩, hkept, -, haudit, hresults⟩ := plannerNode_eq_ok hnode
  rw [AgentGraph.plan, hquery] at hplan
  cases hplan'.symm.trans hplan
  obtain ⟨new, hnew, hp⟩ := plannerLoop_account g.registry
    (getCurrentPrincipal (thread.update (initialState userMessage principal))) g.plannerPolicy plan 0
    st.audit hids
  rw [← haudit] at hnew
  rw [← hkept] at hp
  have hkeptIds := hids.sublist (hp.sublist.map (·.actionId))
  simp only [newEvents_append hnew] at hturn
  split at hturn
  next hroute =>
    -- nothing was kept, and the results of the new state are empty
    cases hturn
    have hnone : state.proposedActions = [] := by
      simp only [routeAfterPlanner] at hroute
      split at hroute
      · cases hroute
      · split at hroute
        next hempty => exact List.isEmpty_iff.mp hempty
        next => cases hroute
    have hx : ExecutorAccount state.proposedActions state.actionResults [] := by
      rw [hnone, hresults]
      exact ⟨by simp, by simp, rfl⟩
    have hparts : TurnAccounted plan ⟨state, planned, new ++ [] ++ []⟩ :=
      accounted_of_parts hids hp (by simp) hx
    simpa using hparts
  next =>
    cases hturn
    obtain ⟨state', run, executed, heq, hx⟩ := execute_eq g state planned new hkeptIds
    rw [heq]
    have hparts : TurnAccounted plan ⟨state', run, new ++ [] ++ executed⟩ :=
      accounted_of_parts hids hp (by simp) hx
    simpa using hparts
  next =>
    simp only [Fallible.bind_eq_ok, Fallible.pure_eq_ok] at hturn
    obtain ⟨⟨state', audit⟩, happ, rfl⟩ := hturn
    obtain ⟨hprop, -, -, ds, rfl⟩ := approvalNode_eq_ok happ
    obtain ⟨decided, hdecided, -, htypes⟩ := events_foldl_decided ds (g.others .approval planned).audit
    rw [newEvents_append hdecided]
    obtain ⟨state'', run, executed, heq, hx⟩ := execute_eq g state'
      ((g.others .approval planned).withAudit (ds.foldl AuditLog.decided _)) (new ++ decided)
      (by rw [hprop]; exact hkeptIds)
    rw [heq]
    rw [hprop] at hx
    exact accounted_of_parts hids hp htypes hx

/-! ### One approval, one refusal -/

/-- A strategy that plans two gated counts, and an executor that is run after the pause. -/
def countingGraph : AgentGraph ℕ where
  planFn := fun _ _ _ w => (.ok [countingAction "a1" .send, countingAction "a2" .send], w)
  registry := countingRegistry .send
  knowledge := ⟨fun _ _ _ => .ok []⟩
  order := firstSeenOrder
  plannerPolicy := fun _ => DEFAULT_POLICY
  executorPolicy := fun _ => DEFAULT_POLICY
  others := fun _ st => st

/-- An admin's turn in which the first action only is approved. -/
def countingTurn : Except PyError (Turn ℕ) :=
  countingGraph.invoke (.obj [("a1", .bool true)])
    (({} : AgentState).update (initialState "count" (some { userId := "alice", roles := ["admin"] })))
    ⟨freshLog, 0, []⟩

-- both are proposed and paused on, one is decided; one runs and the other is skipped
example : countingTurn.toOption.map (fun turn => turn.events.map fun e => (e.actionId, e.eventType)) =
    some [("a1", .proposed), ("a2", .proposed), ("a1", .approved), ("a1", .executed), ("a2", .skipped)] := by
  decide

theorem turn_accounted_counting :
    ∃ turn, countingTurn = .ok turn ∧
      TurnAccounted [countingAction "a1" .send, countingAction "a2" .send] turn := by
  obtain ⟨turn, hturn⟩ : ∃ turn, countingTurn = .ok turn := by
    cases h : countingTurn with
    | ok turn => exact ⟨turn, rfl⟩
    | error e =>
      have hok : countingTurn.toOption.isSome = true := by decide
      rw [h] at hok
      cases hok
  exact ⟨turn, hturn, turn_accounted countingGraph _ _ _ _ _ _ 0 turn rfl (by decide) hturn⟩

end Atlas
