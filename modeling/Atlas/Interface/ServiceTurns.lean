import Atlas.Interface.Service

/-! A finished thread of the service is a turn. The nodes of other threads, the ingests and the decisions that
    come between two of its nodes are what `others` stands for in `AgentGraph.invoke`, so whatever holds of
    every turn holds of every thread of every interleaving (`finished_thread_turn`). The turn lies in the run
    (`TurnIn`): each of its nodes finds what the steps of the others have left when its own step is taken. By
    stage: what a thread has done so far is the beginning of a turn (`TurnSoFar`), and the executor completes
    it. -/

namespace Atlas

open LabelledRun

variable {σ : Type}

/-! ### The log grows -/

section growth
variable {d : Deployment σ}

theorem newEvents_subset (before after : AuditLog) : newEvents before after ⊆ after.events :=
  List.drop_subset _ _

theorem grows_executorNode (policy : ℕ → PolicyStore) (state : AgentState) (st : RunState σ) :
    st.audit.events <+: (executorNode d.registry policy state st).2.audit.events := by
  obtain ⟨new, hnew, -⟩ := executorLoop_reports d.registry (getCurrentPrincipal state)
    state.approvedActionIds policy state.proposedActions 0 st
  exact ⟨new, hnew.symm⟩

theorem grows_advance {graph : InMemoryKnowledgeGraph} {policy : ℕ → PolicyStore} {thread thread' : Thread}
    {st st' : RunState σ} (h : thread.advance d graph policy st = some (thread', st')) :
    st.audit.events <+: st'.audit.events := by
  rcases advance_cases h with ⟨-, state, hnode, -⟩ | ⟨-, rfl, -⟩ | ⟨-, rfl, -⟩
  · obtain ⟨plan, -, -, -, -, haudit, -⟩ := plannerNode_eq_ok hnode
    obtain ⟨new, hnew, -⟩ := plannerLoop_unrun d.registry (getCurrentPrincipal thread.state) policy plan 0
      st.audit
    exact ⟨new, by rw [haudit, hnew]⟩
  · exact grows_executorNode policy thread.state st
  · exact List.prefix_refl _

/-- No step of the service takes an event back. -/
theorem grows_serviceStep {s s' : Service σ} {step : ServiceStep} (h : serviceStep d s step = some s') :
    s.run.audit.events <+: s'.run.audit.events := by
  cases step with
  | ingest call =>
    cases h
    simp only [IngestCall.apply, audit_withAudit]
    cases hplan : planIngest d.rt call.service call.principal call.document with
    | error err =>
      rw [ingest_of_error _ hplan]
      exact List.prefix_refl _
    | ok r =>
      rw [ingest_of_ok _ hplan]
      exact List.prefix_append _ _
  | chat threadId message principal =>
    simp only [serviceStep] at h
    split at h
    next => cases h
    next => cases h; exact List.prefix_refl _
  | approve caller body =>
    simp only [serviceStep, Option.bind_eq_bind, Option.bind_eq_some_iff] at h
    obtain ⟨thread, -, ⟨thread', audit⟩, hresume, hs'⟩ := h
    cases hs'
    obtain ⟨-, -, state, hnode, -⟩ := resume_cases hresume
    obtain ⟨new, hnew, -, -⟩ := approvalNode_decides hnode
    exact ⟨new, hnew.symm⟩
  | advance threadId policy =>
    simp only [serviceStep, Option.bind_eq_bind, Option.bind_eq_some_iff] at h
    obtain ⟨thread, -, ⟨thread', run⟩, hadvance, hs'⟩ := h
    cases hs'
    exact grows_advance hadvance

end growth

/-! ### Where a turn lies in a run -/

/-- The input of a thread's only turn: nothing is in its state yet. -/
def firstInput (message : String) (owner : Principal) : AgentState :=
  ({} : AgentState).update (initialState message (some owner))

/-- The thread that a step is of. -/
def ServiceStep.threadId? : ServiceStep → Option String
  | ingest _ => none
  | chat threadId _ _ => some threadId
  | approve _ body => some body.threadId
  | advance threadId _ => some threadId

/-- The step with number `n` of a run, and the service it is taken in. -/
def TakenAt (d : Deployment σ) (start : Service σ) (steps : List ServiceStep) (n : ℕ) (step : ServiceStep)
    (s : Service σ) : Prop :=
  steps[n]? = some step ∧ exec (serviceStep d) start (steps.take n) = some s

/-- Step `n` comes after step `m`, and all steps between them are of others. -/
def OthersBetween (steps : List ServiceStep) (threadId : String) (m n : ℕ) : Prop :=
  m < n ∧ ∀ k step, m < k → k < n → steps[k]? = some step → step.threadId? ≠ some threadId

/-- The turn of a thread in a run, up to its step `n` and the node that comes next: what `g`, `raw`, `st` and
    `world` have for a node is what the run has where that node is taken. -/
inductive TurnIn (d : Deployment σ) (start : Service σ) (steps : List ServiceStep) (threadId message : String)
    (owner : Principal) (g : AgentGraph σ) (raw : Json) (st : RunState σ) (world : σ) : NextNode → ℕ → Prop
  | chat {n : ℕ} {s : Service σ} (taken : TakenAt d start steps n (.chat threadId message owner) s) :
      TurnIn d start steps threadId message owner g raw st world .planner n
  | planner {m n : ℕ} {s : Service σ} {state : AgentState} {planned : RunState σ} {next : NextNode}
      (before : TurnIn d start steps threadId message owner g raw st world .planner m)
      (between : OthersBetween steps threadId m n)
      (taken : TakenAt d start steps n (.advance threadId g.plannerPolicy) s)
      (run : s.run = st) (knowledge : g.knowledge = s.graph.toKnowledgeGraph d.rt.toTextRuntime)
      (node : plannerNode g.planFn g.registry g.knowledge g.plannerPolicy (firstInput message owner) st =
        .ok (state, planned))
      (route : (routeAfterPlanner state).node = next) :
      TurnIn d start steps threadId message owner g raw st world next n
  | approval {m n : ℕ} {s : Service σ} {caller : Principal} {body : ApproveRequest} {thread : Thread}
      (before : TurnIn d start steps threadId message owner g raw st world .approval m)
      (between : OthersBetween steps threadId m n)
      (taken : TakenAt d start steps n (.approve caller body) s) (same : body.threadId = threadId)
      (paused : s.threads.get? threadId = some thread)
      (gate : gateResume thread.snapshot caller body = .ok raw)
      (others : ∀ st', g.others .approval st' = s.run) :
      TurnIn d start steps threadId message owner g raw st world .executor n
  | executor {m n : ℕ} {s : Service σ}
      (before : TurnIn d start steps threadId message owner g raw st world .executor m)
      (between : OthersBetween steps threadId m n)
      (taken : TakenAt d start steps n (.advance threadId g.executorPolicy) s)
      (others : ∀ st', g.others .executor st' = s.run) :
      TurnIn d start steps threadId message owner g raw st world .responder n
  | responder {m n : ℕ} {s : Service σ} {policy : ℕ → PolicyStore}
      (before : TurnIn d start steps threadId message owner g raw st world .responder m)
      (between : OthersBetween steps threadId m n)
      (taken : TakenAt d start steps n (.advance threadId policy) s) (seen : s.run.world = world) :
      TurnIn d start steps threadId message owner g raw st world .finished n

section places
variable {d : Deployment σ} {start s : Service σ} {steps : List ServiceStep} {step : ServiceStep}
  {threadId message : String} {owner : Principal} {m n : ℕ}

theorem TakenAt.lt_length (h : TakenAt d start steps n step s) : n < steps.length :=
  (List.getElem?_eq_some_iff.mp h.1).1

theorem TakenAt.append (h : TakenAt d start steps n step s) (more : List ServiceStep) :
    TakenAt d start (steps ++ more) n step s := by
  have hlt := h.lt_length
  constructor
  · rw [List.getElem?_append_left hlt]
    exact h.1
  · rw [List.take_append_of_le_length hlt.le]
    exact h.2

/-- The step that is taken now. -/
theorem takenAt_last (hrun : exec (serviceStep d) start steps = some s) :
    TakenAt d start (steps ++ [step]) steps.length step s := by
  refine ⟨List.getElem?_concat_length, ?_⟩
  rw [List.take_left]
  exact hrun

theorem exec_concat {s' : Service σ} (hrun : exec (serviceStep d) start steps = some s)
    (hstep : serviceStep d s step = some s') : exec (serviceStep d) start (steps ++ [step]) = some s' :=
  exec_append.mpr ⟨s, hrun, exec_cons_eq_some.mpr ⟨s', hstep, rfl⟩⟩

theorem OthersBetween.append (h : OthersBetween steps threadId m n) (hn : n ≤ steps.length)
    (more : List ServiceStep) : OthersBetween (steps ++ more) threadId m n := by
  refine ⟨h.1, fun k step' hm hk hstep => h.2 k step' hm hk ?_⟩
  rw [List.getElem?_append_left (hk.trans_le hn)] at hstep
  exact hstep

/-- A step of another thread. -/
theorem OthersBetween.push (h : OthersBetween steps threadId m steps.length)
    (hstep : step.threadId? ≠ some threadId) :
    OthersBetween (steps ++ [step]) threadId m (steps ++ [step]).length := by
  rw [List.length_append, List.length_singleton]
  refine ⟨h.1.trans (Nat.lt_succ_self _), fun k step' hm hk hget => ?_⟩
  rcases Nat.lt_succ_iff_lt_or_eq.mp hk with hk | rfl
  · rw [List.getElem?_append_left hk] at hget
    exact h.2 k step' hm hk hget
  · rw [List.getElem?_concat_length, Option.some.injEq] at hget
    exact hget ▸ hstep

theorem othersBetween_last :
    OthersBetween (steps ++ [step]) threadId steps.length (steps ++ [step]).length := by
  rw [List.length_append, List.length_singleton]
  refine ⟨Nat.lt_succ_self _, fun k _ hm hk => ?_⟩
  omega

/-- A turn stays where it lies. -/
theorem TurnIn.append {g : AgentGraph σ} {raw : Json} {st : RunState σ} {world : σ} {next : NextNode}
    (h : TurnIn d start steps threadId message owner g raw st world next n) (more : List ServiceStep) :
    TurnIn d start (steps ++ more) threadId message owner g raw st world next n := by
  induction h with
  | chat taken => exact .chat (taken.append more)
  | planner _ between taken run knowledge node route ih =>
    exact .planner ih (between.append taken.lt_length.le more) (taken.append more) run knowledge node route
  | approval _ between taken same paused gate others ih =>
    exact .approval ih (between.append taken.lt_length.le more) (taken.append more) same paused gate others
  | executor _ between taken others ih =>
    exact .executor ih (between.append taken.lt_length.le more) (taken.append more) others
  | responder _ between taken seen ih =>
    exact .responder ih (between.append taken.lt_length.le more) (taken.append more) seen

end places

/-! ### The turn so far -/

/-- A turn of the deployment, over the knowledge of some moment. -/
structure Plays (d : Deployment σ) (g : AgentGraph σ) : Prop where
  planFn : g.planFn = d.planFn
  registry : g.registry = d.registry
  order : g.order = d.order
  knowledge : ∃ graph : InMemoryKnowledgeGraph, g.knowledge = graph.toKnowledgeGraph d.rt.toTextRuntime

/-- The graph of a turn whose planner has run, with what others do before its other nodes still open. -/
def Deployment.graphOf (d : Deployment σ) (graph : InMemoryKnowledgeGraph)
    (plannerPolicy executorPolicy : ℕ → PolicyStore) (approval executor : RunState σ) : AgentGraph σ where
  planFn := d.planFn
  registry := d.registry
  knowledge := graph.toKnowledgeGraph d.rt.toTextRuntime
  order := d.order
  plannerPolicy := plannerPolicy
  executorPolicy := executorPolicy
  others
    | .approval, _ => approval
    | .executor, _ => executor
    | .responder, st => st

theorem plays_graphOf {d : Deployment σ} (graph : InMemoryKnowledgeGraph)
    (plannerPolicy executorPolicy : ℕ → PolicyStore) (approval executor : RunState σ) :
    Plays d (d.graphOf graph plannerPolicy executorPolicy approval executor) :=
  ⟨rfl, rfl, rfl, graph, rfl⟩

/-- How far the turn of a thread is, by the node that runs next, with its last step so far; `log` holds the
    events it has appended. -/
inductive TurnSoFar (d : Deployment σ) (start : Service σ) (steps : List ServiceStep)
    (threadId message : String) (owner : Principal) (log : List AuditEvent) (last : ℕ) : Thread → Prop
  | opened (reached : ∀ g raw st world,
        TurnIn d start steps threadId message owner g raw st world .planner last) :
      TurnSoFar d start steps threadId message owner log last { state := initialState message (some owner) }
  | paused {graph : InMemoryKnowledgeGraph} {policy : ℕ → PolicyStore} {st planned : RunState σ}
      {state : AgentState}
      (node : plannerNode d.planFn d.registry (graph.toKnowledgeGraph d.rt.toTextRuntime) policy
        (firstInput message owner) st = .ok (state, planned))
      (route : routeAfterPlanner state = .approval)
      (logged : newEvents st.audit planned.audit ⊆ log)
      (reached : ∀ executorPolicy approval executor raw world, TurnIn d start steps threadId message owner
        (d.graphOf graph policy executorPolicy approval executor) raw st world .approval last) :
      TurnSoFar d start steps threadId message owner log last { state := state, next := .approval }
  -- whatever state and policy the executor will find, it completes the turn
  | ready {state : AgentState}
      (completes : ∀ (before : RunState σ) (policy : ℕ → PolicyStore), ∃ g raw st planned events,
        Plays d g ∧ g.executorPolicy = policy ∧ (∀ st', g.others .executor st' = before) ∧
        (∀ world, TurnIn d start steps threadId message owner g raw st world .executor last) ∧
        g.invoke raw (firstInput message owner) st = .ok (g.execute state planned events) ∧ events ⊆ log) :
      TurnSoFar d start steps threadId message owner log last { state := state, next := .executor }
  | ended {g : AgentGraph σ} {raw : Json} {st : RunState σ} (turn : Turn σ) (plays : Plays d g)
      (reached : ∀ world, TurnIn d start steps threadId message owner g raw st world .responder last)
      (invoke : g.invoke raw (firstInput message owner) st = .ok turn) (logged : turn.events ⊆ log) :
      TurnSoFar d start steps threadId message owner log last { state := turn.state, next := .responder }
  | answered {g : AgentGraph σ} {raw : Json} {st : RunState σ} {turn : Turn σ} {world : σ}
      (plays : Plays d g)
      (reached : TurnIn d start steps threadId message owner g raw st world .finished last)
      (invoke : g.invoke raw (firstInput message owner) st = .ok turn) (logged : turn.events ⊆ log) :
      TurnSoFar d start steps threadId message owner log last
        { state := { turn.state with messages := turn.state.messages ++
            [⟨"ai", (responderNode d.narrator turn.state world).1.content⟩] }
          next := .finished
          answer := some (responderNode d.narrator turn.state world).1 }

section stages
variable {d : Deployment σ} {start s : Service σ} {steps : List ServiceStep} {threadId message : String}
  {owner : Principal} {log : List AuditEvent} {last n : ℕ} {thread thread' : Thread}

theorem TurnSoFar.later {log' : List AuditEvent} (hlog : log ⊆ log') (more : List ServiceStep)
    (h : TurnSoFar d start steps threadId message owner log last thread) :
    TurnSoFar d start (steps ++ more) threadId message owner log' last thread := by
  cases h with
  | opened hreached => exact .opened fun g raw st world => (hreached g raw st world).append more
  | paused hnode hroute hlogged hreached =>
    refine .paused hnode hroute (List.Subset.trans hlogged hlog)
      fun executorPolicy approval executor raw world => ?_
    exact (hreached executorPolicy approval executor raw world).append more
  | ready hcompletes =>
    refine .ready fun before policy => ?_
    obtain ⟨g, raw, st, planned, events, hplays, hpolicy, hothers, hreached, hinvoke, hevents⟩ :=
      hcompletes before policy
    exact ⟨g, raw, st, planned, events, hplays, hpolicy, hothers, fun world => (hreached world).append more,
      hinvoke, List.Subset.trans hevents hlog⟩
  | ended turn hplays hreached hinvoke hlogged =>
    exact .ended turn hplays (fun world => (hreached world).append more) hinvoke
      (List.Subset.trans hlogged hlog)
  | answered hplays hreached hinvoke hlogged =>
    exact .answered hplays (hreached.append more) hinvoke (List.Subset.trans hlogged hlog)

/-- After the planner: the pause, the executor, or the end. -/
theorem turnSoFar_of_planner {policy : ℕ → PolicyStore} {planned : RunState σ} {state : AgentState}
    (hreached : ∀ g raw st world, TurnIn d start steps threadId message owner g raw st world .planner last)
    (hbetween : OthersBetween steps threadId last n)
    (htaken : TakenAt d start steps n (.advance threadId policy) s)
    (hnode : plannerNode d.planFn d.registry (s.graph.toKnowledgeGraph d.rt.toTextRuntime) policy
      (firstInput message owner) s.run = .ok (state, planned)) (hlog : planned.audit.events ⊆ log) :
    TurnSoFar d start steps threadId message owner log n
      { state := state, next := (routeAfterPlanner state).node } := by
  have hlogged := List.Subset.trans (newEvents_subset s.run.audit planned.audit) hlog
  have hplanned : ∀ executorPolicy approval executor raw world,
      TurnIn d start steps threadId message owner
        (d.graphOf s.graph policy executorPolicy approval executor) raw s.run world
        (routeAfterPlanner state).node n :=
    fun executorPolicy approval executor raw world =>
      .planner (hreached _ raw s.run world) hbetween htaken rfl rfl hnode rfl
  cases hroute : routeAfterPlanner state with
  | approval =>
    rw [hroute] at hplanned
    exact .paused hnode hroute hlogged hplanned
  | executor =>
    rw [hroute] at hplanned
    refine .ready fun before executorPolicy => ?_
    refine ⟨d.graphOf s.graph policy executorPolicy before before, .null, s.run, planned,
      newEvents s.run.audit planned.audit, plays_graphOf .., rfl, fun _ => rfl,
      fun world => hplanned executorPolicy before before .null world, ?_, hlogged⟩
    simp only [AgentGraph.invoke, Deployment.graphOf, hnode, Fallible.ok_bind, hroute]
    rfl
  | responder =>
    rw [hroute] at hplanned
    have hinvoke : (d.graphOf s.graph policy policy planned planned).invoke .null (firstInput message owner)
        s.run = .ok ⟨state, planned, newEvents s.run.audit planned.audit⟩ := by
      simp only [AgentGraph.invoke, Deployment.graphOf, hnode, Fallible.ok_bind, hroute]
      rfl
    exact .ended ⟨state, planned, newEvents s.run.audit planned.audit⟩ (plays_graphOf ..)
      (fun world => hplanned policy planned planned .null world) hinvoke hlogged

/-- The gate of a resume hands its payload on. -/
theorem gateResume_of_resume {caller : Principal} {body : ApproveRequest} {audit audit' : AuditLog}
    (h : thread.resume d caller body audit = some (thread', audit')) :
    gateResume thread.snapshot caller body = .ok (decisionPayload body thread.snapshot caller) := by
  unfold Thread.resume at h
  split at h
  next => cases h
  next payload hgate =>
    rw [hgate]
    simp only [gateResume, Fallible.bind_eq_ok, Fallible.pure_eq_ok] at hgate
    obtain ⟨-, -, hpayload⟩ := hgate
    rw [← hpayload]

/-- The approval node takes a paused turn on. -/
theorem turnSoFar_of_resume {caller : Principal} {body : ApproveRequest} {audit : AuditLog}
    (h : TurnSoFar d start steps threadId message owner audit.events last thread)
    (hbetween : OthersBetween steps threadId last n)
    (htaken : TakenAt d start steps n (.approve caller body) s) (hsame : body.threadId = threadId)
    (hget : s.threads.get? threadId = some thread)
    (hstep : thread.resume d caller body s.run.audit = some (thread', audit)) :
    TurnSoFar d start steps threadId message owner audit.events n thread' := by
  have hgate := gateResume_of_resume hstep
  obtain ⟨hnext, -, state', happ, rfl⟩ := resume_cases hstep
  cases h with
  | @paused graph policy st planned state hnode hroute hlogged hreached =>
    refine .ready fun before executorPolicy => ?_
    refine ⟨d.graphOf graph policy executorPolicy s.run before, _, st, s.run.withAudit audit,
      newEvents st.audit planned.audit ++ newEvents s.run.audit audit, plays_graphOf .., rfl, fun _ => rfl,
      fun world => .approval (hreached executorPolicy s.run before _ world) hbetween htaken hsame hget hgate
        fun _ => rfl, ?_, ?_⟩
    · simp only [AgentGraph.invoke, Deployment.graphOf, hnode, Fallible.ok_bind, hroute, happ]
      rfl
    · exact List.append_subset.mpr ⟨hlogged, newEvents_subset _ _⟩
  | opened | ready | ended | answered => cases hnext

/-- The stages that an advance can start from. -/
theorem turnSoFar_of_advance {policy : ℕ → PolicyStore} {st' : RunState σ}
    (h : TurnSoFar d start steps threadId message owner st'.audit.events last thread)
    (hbetween : OthersBetween steps threadId last n)
    (htaken : TakenAt d start steps n (.advance threadId policy) s)
    (hstep : thread.advance d s.graph policy s.run = some (thread', st')) :
    TurnSoFar d start steps threadId message owner st'.audit.events n thread' := by
  rcases advance_cases hstep with ⟨hnext, state, hnode, rfl⟩ | ⟨hnext, rfl, rfl⟩ | ⟨hnext, rfl, rfl⟩
  · cases h with
    | opened hreached => exact turnSoFar_of_planner hreached hbetween htaken hnode (List.Subset.refl _)
    | paused | ready | ended | answered => cases hnext
  · cases h with
    | @ready state hcompletes =>
      obtain ⟨g, raw, st, planned, events, hplays, rfl, hothers, hreached, hinvoke, hevents⟩ :=
        hcompletes s.run policy
      have hstate : (g.execute state planned events).state =
          (executorNode d.registry g.executorPolicy state s.run).1 := by
        simp only [AgentGraph.execute, hothers, hplays.registry]
      have hlogged : (g.execute state planned events).events =
          events ++ newEvents s.run.audit
            (executorNode d.registry g.executorPolicy state s.run).2.audit := by
        simp only [AgentGraph.execute, hothers, hplays.registry]
      rw [← hstate]
      refine .ended (g.execute state planned events) hplays
        (fun world => .executor (hreached world) hbetween htaken hothers) hinvoke ?_
      rw [hlogged]
      exact List.append_subset.mpr ⟨hevents, newEvents_subset _ _⟩
    | opened | paused | ended | answered => cases hnext
  · cases h with
    | ended turn hplays hreached hinvoke hlogged =>
      exact .answered hplays (.responder (hreached s.run.world) hbetween htaken rfl) hinvoke hlogged
    | opened | paused | ready | answered => cases hnext

end stages

/-! ### Whole runs -/

/-- The steps lead here, and every thread is a turn so far, of a request that was made. -/
structure TurnsSoFar (d : Deployment σ) (start : Service σ) (done : List ServiceStep) (s : Service σ) :
    Prop where
  run : exec (serviceStep d) start done = some s
  threads : ∀ threadId thread, s.threads.get? threadId = some thread → ∃ message owner last,
    .chat threadId message owner ∈ done ∧ OthersBetween done threadId last done.length ∧
      TurnSoFar d start done threadId message owner s.run.audit.events last thread

/-- A step of one thread, whose turn is then at this step. -/
theorem TurnsSoFar.of_thread {d : Deployment σ} {start s s' : Service σ} {done : List ServiceStep}
    {step : ServiceStep} {threadId message : String} {owner : Principal} {thread : Thread}
    (h : TurnsSoFar d start done s) (hstep : serviceStep d s step = some s')
    (hid : step.threadId? = some threadId) (hthreads : s'.threads = s.threads.set threadId thread)
    (hchat : .chat threadId message owner ∈ done ++ [step])
    (hturn : TurnSoFar d start (done ++ [step]) threadId message owner s'.run.audit.events done.length
      thread) :
    TurnsSoFar d start (done ++ [step]) s' := by
  refine ⟨exec_concat h.run hstep, fun threadId' thread' hget => ?_⟩
  rw [hthreads, Dict.get?_set] at hget
  split at hget
  next heq =>
    cases hget
    rw [heq]
    exact ⟨message, owner, done.length, hchat, othersBetween_last, hturn⟩
  next hne =>
    obtain ⟨message', owner', last, hchat', hbetween, hturn'⟩ := h.threads threadId' thread' hget
    have hother : step.threadId? ≠ some threadId' := by
      rw [hid]
      exact fun heq => hne (Option.some.inj heq).symm
    exact ⟨message', owner', last, List.mem_append_left _ hchat', hbetween.push hother,
      hturn'.later (grows_serviceStep hstep).subset [step]⟩

theorem turnsSoFar_step {d : Deployment σ} {start : Service σ} (done : List ServiceStep) (s : Service σ)
    (step : ServiceStep) (s' : Service σ) (h : TurnsSoFar d start done s)
    (hstep : serviceStep d s step = some s') : TurnsSoFar d start (done ++ [step]) s' := by
  have hgrows := (grows_serviceStep hstep).subset
  have hlast := @takenAt_last σ d start s done step h.run
  have hnow := hstep
  cases step with
  | ingest call =>
    refine ⟨exec_concat h.run hstep, fun threadId thread hget => ?_⟩
    cases hstep
    obtain ⟨message, owner, last, hchat, hbetween, hturn⟩ := h.threads threadId thread hget
    exact ⟨message, owner, last, List.mem_append_left _ hchat, hbetween.push (Option.some_ne_none _).symm,
      hturn.later hgrows _⟩
  | chat threadId message principal =>
    simp only [serviceStep] at hstep
    split at hstep
    next => cases hstep
    next =>
      cases hstep
      refine h.of_thread hnow rfl rfl ?_ (.opened fun g raw st world => .chat hlast)
      exact List.mem_append_right _ (List.mem_singleton.mpr rfl)
  | approve caller body =>
    simp only [serviceStep, Option.bind_eq_bind, Option.bind_eq_some_iff] at hstep
    obtain ⟨thread, hget, ⟨thread', audit⟩, hresume, hs'⟩ := hstep
    cases hs'
    obtain ⟨message, owner, last, hchat, hbetween, hturn⟩ := h.threads _ thread hget
    exact h.of_thread hnow rfl rfl (List.mem_append_left _ hchat)
      (turnSoFar_of_resume (hturn.later hgrows _) (hbetween.append le_rfl _) hlast rfl hget hresume)
  | advance threadId policy =>
    simp only [serviceStep, Option.bind_eq_bind, Option.bind_eq_some_iff] at hstep
    obtain ⟨thread, hget, ⟨thread', run⟩, hadvance, hs'⟩ := hstep
    cases hs'
    obtain ⟨message, owner, last, hchat, hbetween, hturn⟩ := h.threads _ thread hget
    exact h.of_thread hnow rfl rfl (List.mem_append_left _ hchat)
      (turnSoFar_of_advance (hturn.later hgrows _) (hbetween.append le_rfl _) hlast hadvance)

/-- However the requests of all users interleave, a finished thread is one turn on the request that opened it,
    with what the others did in between as what its nodes find: its state is that of the turn with the answer
    added, its answer is the responder's, and the events of the turn are all in the log. -/
theorem finished_thread_turn (d : Deployment σ) (start : Service σ) (hstart : start.threads = Dict.empty)
    (steps : List ServiceStep) (s : Service σ) (hrun : exec (serviceStep d) start steps = some s)
    (threadId : String) (thread : Thread) (hget : s.threads.get? threadId = some thread)
    (hfinished : thread.next = .finished) :
    ∃ message owner g raw st turn world last, .chat threadId message owner ∈ steps ∧ Plays d g ∧
      TurnIn d start steps threadId message owner g raw st world .finished last ∧
      OthersBetween steps threadId last steps.length ∧
      g.invoke raw (firstInput message owner) st = .ok turn ∧
      thread.answer = some (responderNode d.narrator turn.state world).1 ∧
      thread.state = { turn.state with messages := turn.state.messages ++
        [⟨"ai", (responderNode d.narrator turn.state world).1.content⟩] } ∧
      ∀ e ∈ turn.events, e ∈ s.run.audit.events := by
  have hinit : TurnsSoFar d start [] start := by
    refine ⟨rfl, fun threadId thread hget => ?_⟩
    rw [hstart, Dict.get?_empty] at hget
    cases hget
  have hturns := invariant_of_history turnsSoFar_step hinit hrun
  obtain ⟨message, owner, last, hchat, hbetween, hturn⟩ := hturns.threads threadId thread hget
  cases hturn with
  | answered hplays hreached hinvoke hlogged =>
    exact ⟨message, owner, _, _, _, _, _, last, hchat, hplays, hreached, hbetween, hinvoke, rfl, rfl, hlogged⟩
  | opened | paused | ready | ended => cases hfinished

/-- Two threads of an admin, with all of the second between the approval and the executor of the first. -/
def overtakenThread : List ServiceStep :=
  [.chat "thr_1" "count" noteReader, .advance "thr_1" fun _ => DEFAULT_POLICY,
    .chat "thr_2" "count" noteReader, .advance "thr_2" fun _ => DEFAULT_POLICY,
    .approve noteReader approveAll,
    .approve noteReader { approveAll with threadId := "thr_2", thread_nonempty := by simp },
    .advance "thr_2" fun _ => DEFAULT_POLICY, .advance "thr_2" fun _ => DEFAULT_POLICY,
    .advance "thr_1" fun _ => DEFAULT_POLICY, .advance "thr_1" fun _ => DEFAULT_POLICY]

theorem finished_thread_turn_counting : ∃ s thread,
    exec (serviceStep countingDeployment) freshService overtakenThread = some s ∧
      s.threads.get? "thr_1" = some thread ∧
      ∃ message owner g raw st turn world last, .chat "thr_1" message owner ∈ overtakenThread ∧
        Plays countingDeployment g ∧
        TurnIn countingDeployment freshService overtakenThread "thr_1" message owner g raw st world
          .finished last ∧
        OthersBetween overtakenThread "thr_1" last overtakenThread.length ∧
        g.invoke raw (firstInput message owner) st = .ok turn ∧
        thread.answer = some (responderNode countingDeployment.narrator turn.state world).1 ∧
        thread.state = { turn.state with messages := turn.state.messages ++
          [⟨"ai", (responderNode countingDeployment.narrator turn.state world).1.content⟩] } ∧
        ∀ e ∈ turn.events, e ∈ s.run.audit.events := by
  obtain ⟨s, hrun⟩ := Option.isSome_iff_exists.mp (show
    (exec (serviceStep countingDeployment) freshService overtakenThread).isSome = true by decide)
  have hthread : (exec (serviceStep countingDeployment) freshService overtakenThread).bind
      (fun s => (s.threads.get? "thr_1").map (·.next)) = some .finished := by decide
  rw [hrun, Option.bind_some, Option.map_eq_some_iff] at hthread
  obtain ⟨thread, hget, hfinished⟩ := hthread
  exact ⟨s, thread, hrun, hget, finished_thread_turn countingDeployment freshService rfl _ s hrun "thr_1" thread
    hget hfinished⟩

end Atlas
