import Atlas.Interface.GateResume
import Atlas.Knowledge.Isolation
import Atlas.Orchestration.LlmPlan
import Atlas.Orchestration.Responder

/-! The service: users ingest documents, open threads and decide on pauses, and the threads advance node
    by node, all in any order. The audit log, the world and the knowledge graph, which is the in-memory
    one, are shared. A call of a tool is then the end of a chain of steps of one thread, in this order: its
    user opened it, a planner's check permitted the action, the same user approved it where it was paused on,
    and an executor's check permitted it again (`service_governed`). -/

namespace Atlas

open LabelledRun Text

variable {σ : Type}

/-! ### Threads -/

/-- The node of a thread that runs next. -/
inductive NextNode where | planner | approval | executor | responder | finished
  deriving DecidableEq

/-- `snapshot.next`. -/
def NextNode.names : NextNode → List String
  | planner => ["planner"]
  | approval => ["approval"]
  | executor => ["executor"]
  | responder => ["responder"]
  | finished => []

def Route.node : Route → NextNode
  | approval => .approval
  | executor => .executor
  | responder => .responder

/-- A checkpointed thread, with what its responder wrote. -/
structure Thread where
  state : AgentState
  next : NextNode := .planner
  answer : Option Answer := none

/-- What `get_state` reads of it. -/
def Thread.snapshot (thread : Thread) : ThreadSnapshot := ⟨some thread.state, thread.next.names⟩

/-- What the service is built from. -/
structure Deployment (σ : Type) where
  rt : IngestRuntime
  planFn : PlanFn σ
  registry : ToolRegistry σ
  order : SetOrder
  narrator : Option (Narrator σ) := none

section node
variable (d : Deployment σ) (graph : InMemoryKnowledgeGraph) (policy : ℕ → PolicyStore)

/-- One node of a thread, but for the approval node, which waits for a human. A node that raises leaves the
    checkpoint, and is no step. -/
def Thread.advance (thread : Thread) (st : RunState σ) : Option (Thread × RunState σ) :=
  match thread.next with
  | .planner =>
    match plannerNode d.planFn d.registry (graph.toKnowledgeGraph d.rt.toTextRuntime) policy thread.state st with
    | .ok (state, st) => some ({ thread with state := state, next := (routeAfterPlanner state).node }, st)
    | .error _ => none
  | .executor =>
    let (state, st) := executorNode d.registry policy thread.state st
    some ({ thread with state := state, next := .responder }, st)
  | .responder =>
    let (answer, world) := responderNode d.narrator thread.state st.world
    some (
      { state := { thread.state with messages := thread.state.messages ++ [⟨"ai", answer.content⟩] }
        next := .finished
        answer := some answer },
      { st with world := world })
  | .approval | .finished => none

/-- The resume of a paused thread: past the gate, the approval node takes the decisions. -/
def Thread.resume (thread : Thread) (caller : Principal) (body : ApproveRequest) (audit : AuditLog) :
    Option (Thread × AuditLog) :=
  match gateResume thread.snapshot caller body with
  | .error _ => none
  | .ok payload =>
    match approvalNode d.order payload thread.state audit with
    | .error _ => none
    | .ok (state, audit) => some ({ thread with state := state, next := .executor }, audit)

end node

/-! ### The service -/

structure Service (σ : Type) where
  graph : InMemoryKnowledgeGraph
  run : RunState σ
  threads : Dict String Thread := Dict.empty

/-- `POST /kg/ingest`, `POST /chat`, `POST /approve`, and the next node of a thread, with the policy as its
    checks read it. -/
inductive ServiceStep where
  | ingest (call : IngestCall)
  | chat (threadId message : String) (principal : Principal)
  | approve (caller : Principal) (body : ApproveRequest)
  | advance (threadId : String) (policy : ℕ → PolicyStore)

/-- One step. A new thread has a new id. -/
def serviceStep (d : Deployment σ) (s : Service σ) : ServiceStep → Option (Service σ)
  | .ingest call =>
    let st := call.apply d.rt ⟨s.graph, some s.run.audit⟩
    some { s with graph := st.graph, run := s.run.withAudit (st.audit.getD s.run.audit) }
  | .chat threadId message principal =>
    if (s.threads.get? threadId).isSome then none
    else some { s with
      threads := s.threads.set threadId { state := initialState message (some principal) } }
  | .approve caller body => do
    let thread ← s.threads.get? body.threadId
    let (thread, audit) ← thread.resume d caller body s.run.audit
    some { s with run := s.run.withAudit audit, threads := s.threads.set body.threadId thread }
  | .advance threadId policy => do
    let thread ← s.threads.get? threadId
    let (thread, run) ← thread.advance d s.graph policy s.run
    some { s with run := run, threads := s.threads.set threadId thread }

/-! ### What one step does -/

section steps
variable {d : Deployment σ} {graph : InMemoryKnowledgeGraph} {policy : ℕ → PolicyStore}
  {thread thread' : Thread} {st st' : RunState σ}

/-- The three nodes that run without a human. -/
theorem advance_cases (h : thread.advance d graph policy st = some (thread', st')) :
    (thread.next = .planner ∧ ∃ state,
      plannerNode d.planFn d.registry (graph.toKnowledgeGraph d.rt.toTextRuntime) policy thread.state st =
        .ok (state, st') ∧
      thread' = { thread with state := state, next := (routeAfterPlanner state).node }) ∨
    (thread.next = .executor ∧ st' = (executorNode d.registry policy thread.state st).2 ∧
      thread' = { thread with
        state := (executorNode d.registry policy thread.state st).1, next := .responder }) ∨
    (thread.next = .responder ∧
      st' = { st with world := (responderNode d.narrator thread.state st.world).2 } ∧
      thread' =
        { state := { thread.state with messages := thread.state.messages ++
            [⟨"ai", (responderNode d.narrator thread.state st.world).1.content⟩] }
          next := .finished
          answer := some (responderNode d.narrator thread.state st.world).1 }) := by
  unfold Thread.advance at h
  split at h
  next hnext =>
    split at h
    next state st₁ hnode =>
      cases h
      exact Or.inl ⟨hnext, state, hnode, rfl⟩
    next => cases h
  next hnext =>
    cases h
    exact Or.inr (Or.inl ⟨hnext, rfl, rfl⟩)
  next hnext =>
    cases h
    exact Or.inr (Or.inr ⟨hnext, rfl, rfl⟩)
  next => cases h
  next => cases h

/-- A resume is the owner's, of a paused thread, and its decisions are those of the request. -/
theorem resume_cases {caller : Principal} {body : ApproveRequest} {audit audit' : AuditLog}
    (h : thread.resume d caller body audit = some (thread', audit')) :
    thread.next = .approval ∧ OwnsThread thread.state.principal caller ∧ ∃ state,
      approvalNode d.order (decisionPayload body thread.snapshot caller) thread.state audit =
        .ok (state, audit') ∧
      thread' = { thread with state := state, next := .executor } := by
  unfold Thread.resume at h
  split at h
  next => cases h
  next payload hgate =>
    simp only [gateResume, Fallible.bind_eq_ok, Fallible.pure_eq_ok] at hgate
    obtain ⟨_, hchecks, rfl⟩ := hgate
    have hvalues : thread.snapshot.values = some thread.state := rfl
    obtain ⟨⟨howns, -⟩, hawaiting⟩ := (gateChecks_eq_ok hvalues).mp hchecks
    have hnext : thread.next = .approval := by
      simp only [Thread.snapshot, ThreadSnapshot.toStateSnapshot, isAwaitingApproval] at hawaiting
      cases hn : thread.next <;> rw [hn] at hawaiting <;> first | rfl | cases hawaiting
    split at h
    next => cases h
    next state audit₁ hnode =>
      cases h
      exact ⟨hnext, howns, state, hnode, rfl⟩

/-- What a resumed thread has been approved: what the request says yes to. -/
theorem approved_of_resume {caller : Principal} {body : ApproveRequest} {audit audit' : AuditLog}
    {state : AgentState}
    (h : approvalNode d.order (decisionPayload body thread.snapshot caller) thread.state audit =
      .ok (state, audit')) (aid : String) :
    aid ∈ state.approvedActionIds ↔
      body.Approves ((gatedActions thread.state).map (·.actionId)) aid := by
  rw [approvalNode_payload d.order body caller audit rfl] at h
  cases h
  exact mem_approved_iff

end steps

/-! ### How a thread came to where it is -/

/-- What is known of a thread after the steps `done`. -/
structure ThreadFacts (d : Deployment σ) (done : List ServiceStep) (threadId message : String)
    (owner : Principal) (thread : Thread) : Prop where
  opened : List.Sublist [.chat threadId message owner] done
  owned : thread.state.principal = some owner
  fresh : thread.next = .planner → thread.state = initialState message (some owner)
  planned : ∀ a ∈ thread.state.proposedActions, (∃ i name args why, d.registry.propose i name args why = .ok a) ∧
    ∃ policy k, List.Sublist [.chat threadId message owner, .advance threadId policy] done ∧
      Permitted d.registry owner (policy k) a
  approved : ∀ a ∈ thread.state.proposedActions, a.actionId ∈ thread.state.approvedActionIds →
    ∃ policy k caller body, List.Sublist
        [.chat threadId message owner, .advance threadId policy, .approve caller body] done ∧
      Permitted d.registry owner (policy k) a ∧
      body.threadId = threadId ∧ OwnsThread (some owner) caller ∧
      (body.approve = some true ∨ body.approve = none ∧ a.actionId ∈ body.approvedIds)

/-- A call of a tool with what came before it, step by step. -/
def GovernedCall (d : Deployment σ) (done : List ServiceStep) (threadId message : String) (c : Call σ) : Prop :=
  (∃ tool, d.registry.get c.action.tool = .ok tool ∧ c.action.riskTier = tool.riskTier) ∧
  ∃ checked k consent rechecked k',
    List.Sublist ([.chat threadId message c.principal, .advance threadId checked] ++ consent ++
      [.advance threadId rechecked]) done ∧
    Permitted d.registry c.principal (checked k) c.action ∧
    Permitted d.registry c.principal (rechecked k') c.action ∧
    (consent = [] ∧ DeclaredSafe d.registry c.action ∨
      ∃ caller body, consent = [.approve caller body] ∧ body.threadId = threadId ∧
        OwnsThread (some c.principal) caller ∧
        (body.approve = some true ∨ body.approve = none ∧ c.action.actionId ∈ body.approvedIds))

section history
variable {d : Deployment σ} {done : List ServiceStep} {threadId message : String} {owner : Principal}
  {thread thread' : Thread}

theorem ThreadFacts.later (h : ThreadFacts d done threadId message owner thread) (step : ServiceStep) :
    ThreadFacts d (done ++ [step]) threadId message owner thread := by
  have hlater : ∀ {steps : List ServiceStep}, steps.Sublist done → steps.Sublist (done ++ [step]) :=
    fun hsub => hsub.trans (List.sublist_append_left _ _)
  refine ⟨hlater h.opened, h.owned, h.fresh, fun a ha => ?_, fun a ha hid => ?_⟩
  · obtain ⟨hmade, policy, k, hsub, hperm⟩ := h.planned a ha
    exact ⟨hmade, policy, k, hlater hsub, hperm⟩
  · obtain ⟨policy, k, caller, body, hsub, hrest⟩ := h.approved a ha hid
    exact ⟨policy, k, caller, body, hlater hsub, hrest⟩

theorem GovernedCall.later {c : Call σ} (h : GovernedCall d done threadId message c) (step : ServiceStep) :
    GovernedCall d (done ++ [step]) threadId message c := by
  obtain ⟨htool, checked, k, consent, rechecked, k', hsub, hrest⟩ := h
  exact ⟨htool, checked, k, consent, rechecked, k', hsub.trans (List.sublist_append_left _ _), hrest⟩

/-- A thread that has just been opened. -/
theorem facts_of_chat : ThreadFacts d (done ++ [.chat threadId message owner]) threadId message owner
    { state := initialState message (some owner) } where
  opened := List.sublist_append_right _ _
  owned := rfl
  fresh := fun _ => rfl
  planned := fun _ ha => absurd ha List.not_mem_nil
  approved := fun _ ha => absurd ha List.not_mem_nil

theorem node_ne_planner (route : Route) : route.node ≠ .planner := by cases route <;> decide

/-- What a node of the thread leaves known about it. -/
theorem facts_of_advance {graph : InMemoryKnowledgeGraph} {policy : ℕ → PolicyStore} {st st' : RunState σ}
    (hplan : ∀ request context world plan world',
      d.planFn request d.registry context world = (.ok plan, world') → MadeByPropose d.registry plan)
    (h : ThreadFacts d done threadId message owner thread)
    (hstep : thread.advance d graph policy st = some (thread', st')) :
    ThreadFacts d (done ++ [.advance threadId policy]) threadId message owner thread' := by
  have hlater := h.later (.advance threadId policy)
  rcases advance_cases hstep with ⟨hnext, state, hnode, rfl⟩ | ⟨hnext, rfl, rfl⟩ | ⟨hnext, rfl, rfl⟩
  · obtain ⟨plan, world, ⟨context, -, hplanned⟩, hkept, -, -, -⟩ := plannerNode_eq_ok hnode
    have hprincipal : state.principal = thread.state.principal := by rw [(state_of_plannerNode hnode).1]
    have happroved : state.approvedActionIds = thread.state.approvedActionIds := by
      rw [(state_of_plannerNode hnode).1]
    have howner : getCurrentPrincipal thread.state = owner := by rw [getCurrentPrincipal, h.owned]; rfl
    rw [howner] at hkept
    refine ⟨hlater.opened, hprincipal.trans h.owned, fun hfresh => absurd hfresh (node_ne_planner _),
      fun a ha => ?_, fun a ha hid => ?_⟩
    · obtain ⟨k, hk, hperm⟩ := permitted_of_plannerLoop plan 0 st.audit (hkept ▸ ha)
      exact ⟨hplan _ _ _ _ _ hplanned a (List.mem_of_getElem? hk), policy, 0 + k,
        h.opened.append (List.Sublist.refl _), hperm⟩
    · -- nothing has been approved before there was a plan
      rw [happroved, h.fresh hnext] at hid
      exact absurd hid List.not_mem_nil
  · exact ⟨hlater.opened, hlater.owned, (fun hfresh => by cases hfresh), hlater.planned, hlater.approved⟩
  · exact ⟨hlater.opened, hlater.owned, (fun hfresh => by cases hfresh), hlater.planned, hlater.approved⟩

/-- What a resume leaves known about its thread. -/
theorem facts_of_resume {caller : Principal} {body : ApproveRequest} {audit audit' : AuditLog}
    (h : ThreadFacts d done threadId message owner thread) (hid : body.threadId = threadId)
    (hstep : thread.resume d caller body audit = some (thread', audit')) :
    ThreadFacts d (done ++ [.approve caller body]) threadId message owner thread' := by
  have hlater := h.later (.approve caller body)
  obtain ⟨-, howns, state, hnode, rfl⟩ := resume_cases hstep
  have happroves := approved_of_resume hnode
  obtain ⟨hprop, hprincipal, -, -⟩ := approvalNode_eq_ok hnode
  rw [h.owned] at howns
  refine ⟨hlater.opened, hprincipal.trans h.owned, (fun hfresh => by cases hfresh), fun a ha => ?_,
    fun a ha haid => ?_⟩
  · exact hlater.planned a (hprop ▸ ha)
  · obtain ⟨-, policy, k, hsub, hperm⟩ := h.planned a (hprop ▸ ha)
    exact ⟨policy, k, caller, body, hsub.append (List.Sublist.refl _), hperm, hid, howns,
      ((happroves a.actionId).mp haid).2⟩

/-- A call that a node of the thread makes. -/
theorem governed_of_advance {graph : InMemoryKnowledgeGraph} {policy : ℕ → PolicyStore} {st st' : RunState σ}
    (h : ThreadFacts d done threadId message owner thread)
    (hstep : thread.advance d graph policy st = some (thread', st')) :
    ∀ c ∈ st'.calls, c ∈ st.calls ∨
      GovernedCall d (done ++ [.advance threadId policy]) threadId message c := by
  intro c hc
  rcases advance_cases hstep with ⟨-, state, hnode, -⟩ | ⟨hnext, rfl, -⟩ | ⟨-, rfl, -⟩
  · obtain ⟨-, -, -, -, hcalls, -, -⟩ := plannerNode_eq_ok hnode
    exact Or.inl (hcalls ▸ hc)
  · have howner : getCurrentPrincipal thread.state = owner := by rw [getCurrentPrincipal, h.owned]; rfl
    rcases call_of_executorLoop d.registry _ _ policy _ 0 _ hc with hc | ⟨k, hk, hown, hmay, -⟩
    · exact Or.inl hc
    · rw [howner] at hown hmay
      have hmem := List.mem_of_getElem? hk
      obtain ⟨⟨i, name, args, why, hpropose⟩, checked, j, hsub, hperm⟩ := h.planned _ hmem
      obtain ⟨tool, hget, -, hname, htier, -⟩ := ToolRegistry.propose_eq_ok hpropose
      obtain ⟨⟨required, hresolve, hcan⟩, hgate⟩ := hmay
      have hdeclared : d.registry.get c.action.tool = .ok tool := by rw [hname, hget]
      have hrecheck := permitted_of_resolvePermission hresolve hcan
      refine Or.inr ⟨⟨tool, hdeclared, htier⟩, ?_⟩
      rcases hgate with hsafe | hid
      · refine ⟨checked, j, [], policy, 0 + k, ?_, hown ▸ hperm, hown ▸ hrecheck,
          Or.inl ⟨rfl, tool, hdeclared, htier ▸ hsafe⟩⟩
        rw [hown, List.append_nil]
        exact hsub.append (List.Sublist.refl _)
      · obtain ⟨checked, j, caller, body, hsub, hperm, hbody, howns, hyes⟩ := h.approved _ hmem hid
        refine ⟨checked, j, [.approve caller body], policy, 0 + k, ?_, hown ▸ hperm, hown ▸ hrecheck,
          Or.inr ⟨caller, body, rfl, hbody, hown ▸ howns, hyes⟩⟩
        rw [hown]
        exact hsub.append (List.Sublist.refl _)
  · exact Or.inl hc

end history

/-! ### Whole runs -/

/-- Every thread has such a history, and so has every call since the start. -/
structure ServiceInv (d : Deployment σ) (start : Service σ) (done : List ServiceStep) (s : Service σ) : Prop where
  threads : ∀ threadId thread, s.threads.get? threadId = some thread →
    ∃ message owner, ThreadFacts d done threadId message owner thread
  calls : ∀ c ∈ s.run.calls, c ∈ start.run.calls ∨ ∃ threadId message, GovernedCall d done threadId message c

/-- A step that replaces one thread, whose history is known, and makes calls that are governed. -/
theorem ServiceInv.of_thread {d : Deployment σ} {start s s' : Service σ} {done : List ServiceStep}
    {step : ServiceStep} {threadId : String} {thread : Thread} (h : ServiceInv d start done s)
    (hthreads : s'.threads = s.threads.set threadId thread)
    (hthread : ∃ message owner, ThreadFacts d (done ++ [step]) threadId message owner thread)
    (hcalls : ∀ c ∈ s'.run.calls, c ∈ s.run.calls ∨
      ∃ threadId message, GovernedCall d (done ++ [step]) threadId message c) :
    ServiceInv d start (done ++ [step]) s' := by
  constructor
  · intro threadId' thread' hget
    rw [hthreads, Dict.get?_set] at hget
    split at hget
    next heq =>
      cases hget
      rw [heq]
      exact hthread
    next =>
      obtain ⟨message, owner, hfacts⟩ := h.threads threadId' thread' hget
      exact ⟨message, owner, hfacts.later step⟩
  · intro c hc
    rcases hcalls c hc with hc | hgoverned
    · refine (h.calls c hc).imp_right ?_
      rintro ⟨threadId', message, hgoverned⟩
      exact ⟨threadId', message, hgoverned.later step⟩
    · exact Or.inr hgoverned

theorem serviceInv_step {d : Deployment σ} {start : Service σ}
    (hplan : ∀ request context world plan world',
      d.planFn request d.registry context world = (.ok plan, world') → MadeByPropose d.registry plan)
    (done : List ServiceStep) (s : Service σ) (step : ServiceStep) (s' : Service σ)
    (h : ServiceInv d start done s) (hstep : serviceStep d s step = some s') :
    ServiceInv d start (done ++ [step]) s' := by
  cases step with
  | ingest call =>
    cases hstep
    refine ⟨fun threadId thread hget => ?_, fun c hc => ?_⟩
    · obtain ⟨message, owner, hfacts⟩ := h.threads threadId thread hget
      exact ⟨message, owner, hfacts.later _⟩
    · refine (h.calls c hc).imp_right ?_
      rintro ⟨threadId, message, hgoverned⟩
      exact ⟨threadId, message, hgoverned.later _⟩
  | chat threadId message principal =>
    simp only [serviceStep] at hstep
    split at hstep
    next => cases hstep
    next =>
      cases hstep
      exact h.of_thread rfl ⟨message, principal, facts_of_chat⟩ fun c hc => Or.inl hc
  | approve caller body =>
    simp only [serviceStep, Option.bind_eq_bind, Option.bind_eq_some_iff] at hstep
    obtain ⟨thread, hget, ⟨thread', audit⟩, hresume, hs'⟩ := hstep
    cases hs'
    obtain ⟨message, owner, hfacts⟩ := h.threads _ thread hget
    exact h.of_thread rfl ⟨message, owner, facts_of_resume hfacts rfl hresume⟩ fun c hc => Or.inl hc
  | advance threadId policy =>
    simp only [serviceStep, Option.bind_eq_bind, Option.bind_eq_some_iff] at hstep
    obtain ⟨thread, hget, ⟨thread', run⟩, hadvance, hs'⟩ := hstep
    cases hs'
    obtain ⟨message, owner, hfacts⟩ := h.threads _ thread hget
    refine h.of_thread rfl ⟨message, owner, facts_of_advance hplan hfacts hadvance⟩ fun c hc => ?_
    refine (governed_of_advance hfacts hadvance c hc).imp_right fun hgoverned => ?_
    exact ⟨threadId, message, hgoverned⟩

/-- However the requests of all users interleave, and whatever the model answers to whatever it is shown:
    every call of a tool has its chain of steps. -/
theorem service_governed (d : Deployment σ) (model : ChatModel σ) (spec : String → BaseTool σ → ToolSpec)
    (freshId : ℕ → String) (word : WordChars) (low : Lowering) (hasKey : Bool)
    (hplan : d.planFn = defaultPlanFn model spec freshId word low hasKey) (start : Service σ)
    (hstart : start.threads = Dict.empty) (steps : List ServiceStep) (s : Service σ)
    (hrun : exec (serviceStep d) start steps = some s) :
    ∀ c ∈ s.run.calls, c ∈ start.run.calls ∨ ∃ threadId message, GovernedCall d steps threadId message c := by
  have hmade : ∀ request context world plan world',
      d.planFn request d.registry context world = (.ok plan, world') → MadeByPropose d.registry plan := by
    intro request context world plan world' h
    rw [hplan] at h
    exact proposed_of_defaultPlanFn h
  have hinit : ServiceInv d start [] start := by
    refine ⟨fun threadId thread hget => ?_, fun c hc => Or.inl hc⟩
    rw [hstart, Dict.get?_empty] at hget
    cases hget
  exact (invariant_of_history (serviceInv_step hmade) hinit hrun).calls

/-! ### A model that does as it is told -/

/-- A model that calls the counting tool, whatever it is shown. -/
def countingModel : ChatModel ℕ := fun _ _ w => (.ok (some [{ name := some "count" }]), w)

def plainSpec (name : String) (_ : BaseTool ℕ) : ToolSpec := ⟨name, "", .obj []⟩

def countingDeployment : Deployment ℕ where
  rt := ⟨⟨id, id⟩, sampleSha⟩
  planFn := defaultPlanFn countingModel plainSpec (fun _ => "a1") asciiWord asciiCasing.toLowering true
  registry := countingRegistry .send
  order := firstSeenOrder

def freshService : Service ℕ := { graph := .empty none, run := ⟨freshLog, 0, []⟩ }

def approveAll : ApproveRequest where
  threadId := "thr_1"
  approve := some true
  thread_nonempty := by simp
  decides := Or.inl (Option.some_ne_none true)
  one_way := fun _ => ⟨rfl, rfl⟩
  apart := fun _ h => absurd h List.not_mem_nil

/-- An admin's thread, paused on a gated count and resumed by `caller`. -/
def resumedBy (caller : Principal) : List ServiceStep :=
  [.chat "thr_1" "count" noteReader, .advance "thr_1" fun _ => DEFAULT_POLICY, .approve caller approveAll,
    .advance "thr_1" fun _ => DEFAULT_POLICY, .advance "thr_1" fun _ => DEFAULT_POLICY]

-- the tool runs when the user approves, and another user's approval is refused
example : (exec (serviceStep countingDeployment) freshService (resumedBy noteReader)).map (·.run.world) =
    some 1 := by decide

example : (exec (serviceStep countingDeployment) freshService
    (resumedBy { userId := "bob", roles := ["admin"] })).isNone = true := by decide

theorem service_governed_counting : ∃ s,
    exec (serviceStep countingDeployment) freshService (resumedBy noteReader) = some s ∧
      ∀ c ∈ s.run.calls, c ∈ freshService.run.calls ∨ ∃ threadId message,
        GovernedCall countingDeployment (resumedBy noteReader) threadId message c := by
  obtain ⟨s, hrun⟩ := Option.isSome_iff_exists.mp (show
    (exec (serviceStep countingDeployment) freshService (resumedBy noteReader)).isSome = true by decide)
  exact ⟨s, hrun, service_governed countingDeployment countingModel plainSpec (fun _ => "a1") asciiWord
    asciiCasing.toLowering true rfl freshService rfl _ s hrun⟩

end Atlas
