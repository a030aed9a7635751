import Atlas.Orchestration.CrashedRuns
import Atlas.Wiring

/-! The executor node across restarts of its process, as the settings wire it. A restart ends the attempt and
    takes with it what was kept in memory: the audit log, and the checkpoint. What survives is what the next
    attempt knows, so a message goes out twice where the checkpoint outlives the log. The stores follow one
    switch and never do that; the senders follow another, which lets them be live over a log in memory. So
    the settings bound what goes out for an action, over every run, exactly when they do not leave the
    address of the database blank, with a checkpoint on disk and a live sender (`restarts_account_iff`). -/

namespace Atlas

open LabelledRun Text

variable {σ Ω : Type}

/-! ### Restarts -/

/-- What a restart leaves. -/
structure Durability where
  log : Bool
  checkpoint : Bool

/-- The stores of the settings. -/
def SettingsData.durability (s : SettingsData) : Durability where
  log := s.makeAuditLog == .postgres
  checkpoint := s.makeCheckpointer != .memory

/-- The log as the next process finds it. -/
def Durability.logAfter (d : Durability) (audit : AuditLog) : AuditLog :=
  if d.log then audit else { audit with events := [] }

/-- The node, and whether there still is a checkpoint to start it from. -/
structure RestartState (σ : Type) where
  node : NodeState σ
  checkpoint : Bool := true

/-- A step of the node, with what the providers answer at the moment; the world moves on; the process is
    restarted. -/
inductive RestartStep (Ω σ : Type) where
  | node (answers : Ω) (l : NodeStep)
  | outside (world : σ)
  | restart

def NodeStep.isStart : NodeStep → Bool
  | start => true
  | _ => false

section step
variable (d : Durability) (reg : Ω → ToolRegistry σ) (state : AgentState)

def restartStep (s : RestartState σ) : RestartStep Ω σ → Option (RestartState σ)
  | .node answers l =>
    if l.isStart && !s.checkpoint then none
    else (nodeStep (reg answers) state s.node l).map fun node => { s with node := node }
  | .outside world => some { s with node := { s.node with run := { s.node.run with world := world } } }
  | .restart => some {
      node := { s.node with run := s.node.run.withAudit (d.logAfter s.node.run.audit), attempt := none }
      checkpoint := s.checkpoint && d.checkpoint }

end step

/-- The success that a step forgets: the process dies between a tool's success and its event. -/
def forgetsAt (s : RestartState σ) : RestartStep Ω σ → List String
  | .node _ l => forgets s.node l
  | .outside _ => []
  | .restart => unrecorded s.node

/-- The first process before its first attempt. -/
def upState (audit : AuditLog) (world : σ) : RestartState σ := { node := downState audit world }

/-- The actions of the state were proposed from the registry. -/
def Planned (reg : Ω → ToolRegistry σ) (state : AgentState) : Prop :=
  ∀ a ∈ state.proposedActions, ∃ answers i name args why, (reg answers).propose i name args why = .ok a

/-! ### A log that outlives the checkpoint, or goes with it -/

section bound
variable {d : Durability} {reg : Ω → ToolRegistry σ} {state : AgentState} {i : String} {n : ℕ}

/-- As long as nothing has been lost but attempts. -/
structure Accounted (state : AgentState) (i : String) (n : ℕ) (lost : List String) (s : NodeState σ) : Prop where
  sound : s.Sound state i
  once : countedIn i s.run.audit ≤ max 1 n
  balance : Balanced i n lost s

/-- Where log and checkpoint are lost there is nothing left to run. -/
structure Ended (i : String) (lost : List String) (s : RestartState σ) : Prop where
  idle : s.node.attempt = none
  gone : s.checkpoint = false
  bound : successesFor i s.node.run.calls ≤ 1 + lost.count i

theorem Accounted.le {lost : List String} {s : NodeState σ} (h : Accounted state i n lost s) :
    successesFor i s.run.calls ≤ 1 + (lost ++ unrecorded s).count i := by
  have hbalance := h.balance
  have honce := h.once
  rw [Balanced] at hbalance
  omega

/-- A success that waits for its event is the first that the log is to count. -/
theorem Accounted.bound {lost : List String} {s : NodeState σ} (h : Accounted state i n lost s) :
    successesFor i s.run.calls ≤ 1 + lost.count i := by
  by_cases hwaits : (unrecorded s).count i = 0
  · have hle := h.le
    rwa [List.count_append, hwaits, Nat.add_zero] at hle
  · have hbalance := h.balance
    rw [Balanced, List.count_append] at hbalance
    rw [unrecorded] at hwaits hbalance
    split at hwaits
    next a todo extra r results hatt =>
      obtain ⟨hid, hzero⟩ := (h.sound.attempt _ hatt).fits a todo rfl
      simp only [hatt] at hbalance
      by_cases hi : r.actionId = i
      · rw [hzero (hid.symm.trans hi)] at hbalance
        have hone : (if r.ok then [r.actionId] else []).count i ≤ 1 := by split <;> simp [hi]
        omega
      · exact absurd (by split <;> simp [hi]) hwaits
    next => exact absurd rfl hwaits

theorem accounted_upState (audit : AuditLog) (world : σ) :
    Accounted state i (countedIn i audit) [] (upState audit world).node where
  sound := sound_downState audit world
  once := le_max_right ..
  balance := by simp [Balanced, upState, downState, successesFor, unrecorded]

theorem accounted_of_moves (hgated : ∀ a ∈ state.proposedActions, a.actionId = i → a.needsApproval = true)
    {lost : List String} {s s' : NodeState σ} {l : NodeStep} (h : Accounted state i n lost s)
    (hmoves : Moves state s l s') : Accounted state i n (lost ++ forgets s l) s' where
  sound := sound_of_moves hgated h.sound hmoves
  once := countedIn_le_of_moves h.sound h.once hmoves
  balance := balanced_of_moves h.balance hmoves

/-- Without a checkpoint an idle node does nothing. -/
theorem not_moves_of_idle {s s' : NodeState σ} {l : NodeStep} (hidle : s.attempt = none)
    (hstart : l.isStart = false) : ¬Moves state s l s' := by
  intro h
  cases h with
  | start => cases hstart
  | crash hatt => rw [hidle] at hatt; cases hatt
  | _ hatt => rw [hidle] at hatt; cases hatt

/-- What is kept by every step: all that was lost were attempts, or there is nothing left to run. -/
theorem accounted_step (hkeep : d.log = true ∨ d.checkpoint = false)
    (hgated : ∀ a ∈ state.proposedActions, a.actionId = i → a.needsApproval = true) (lost : List String)
    (s : RestartState σ) (l : RestartStep Ω σ) (s' : RestartState σ)
    (h : Accounted state i n lost s.node ∨ Ended i lost s) (hstep : restartStep d reg state s l = some s') :
    Accounted state i n (lost ++ forgetsAt s l) s'.node ∨ Ended i (lost ++ forgetsAt s l) s' := by
  cases l with
  | node answers l =>
    simp only [restartStep, Option.ite_none_left_eq_some, Option.map_eq_some_iff] at hstep
    obtain ⟨hopen, node, hnode, rfl⟩ := hstep
    have hmoves := moves_of_nodeStep hnode
    rcases h with h | h
    · exact Or.inl (accounted_of_moves hgated h hmoves)
    · rw [h.gone, Bool.not_false, Bool.and_true, Bool.not_eq_true] at hopen
      exact absurd hmoves (not_moves_of_idle h.idle hopen)
  | outside world =>
    cases hstep
    rw [forgetsAt, List.append_nil]
    exact h.imp (fun h => ⟨⟨h.sound.attempt, h.sound.returned⟩, h.once, h.balance⟩)
      fun h => ⟨h.idle, h.gone, h.bound⟩
  | restart =>
    cases hstep
    rcases h with h | h
    · cases hlog : d.log with
      | true =>
        refine Or.inl ⟨⟨(fun att hatt => by cases hatt), ?_⟩, ?_, ?_⟩
        · simpa [Durability.logAfter, hlog] using h.sound.returned
        · simpa [Durability.logAfter, hlog] using h.once
        · simpa [Durability.logAfter, hlog, Balanced, forgetsAt, unrecorded] using h.balance
      | false =>
        have hcheckpoint : d.checkpoint = false := hkeep.resolve_left (by simp [hlog])
        exact Or.inr ⟨rfl, by rw [hcheckpoint, Bool.and_false], h.le⟩
    · have hbound := h.bound
      refine Or.inr ⟨rfl, by rw [h.gone, Bool.false_and], ?_⟩
      rw [List.count_append, calls_withAudit]
      omega

/-- Where the checkpoint does not outlive the log, an action succeeds once, and once more for every success
    that a process took with it before the log had it. -/
theorem successes_le (hkeep : d.log = true ∨ d.checkpoint = false)
    (hgated : ∀ a ∈ state.proposedActions, a.actionId = i → a.needsApproval = true) {audit : AuditLog}
    {world : σ} {ls : List (RestartStep Ω σ)} {s : RestartState σ}
    (hrun : exec (restartStep d reg state) (upState audit world) ls = some s) :
    successesFor i s.node.run.calls ≤
      1 + (outputs (restartStep d reg state) forgetsAt (upState audit world) ls).count i := by
  have hstart : Accounted state i (countedIn i audit) [] (upState audit world).node ∨
      Ended i [] (upState audit world) := Or.inl (accounted_upState audit world)
  have hkeeps : ∀ (lost : List String) (s : RestartState σ) (l : RestartStep Ω σ) (s' : RestartState σ),
      Accounted state i (countedIn i audit) lost s.node ∨ Ended i lost s → restartStep d reg state s l = some s' →
      Accounted state i (countedIn i audit) (lost ++ forgetsAt s l) s'.node ∨ Ended i (lost ++ forgetsAt s l) s' :=
    accounted_step hkeep hgated
  have hend := invariant_of_outputs hkeeps hstart hrun
  rw [List.nil_append] at hend
  exact hend.elim Accounted.bound Ended.bound

end bound

/-! ### Tools that cannot succeed -/

section dead
variable {d : Durability} {reg : Ω → ToolRegistry σ} {state : AgentState} {i : String}

/-- Every call is for an action of the state, with what its tool answered, and so is what is left to do. -/
structure CallsMade (reg : Ω → ToolRegistry σ) (state : AgentState) (s : NodeState σ) : Prop where
  todo : ∀ att, s.attempt = some att → ∀ a ∈ att.todo, a ∈ state.proposedActions
  calls : ∀ c ∈ s.run.calls, c.action ∈ state.proposedActions ∧
    ∃ answers, c.result = ((reg answers).execute c.action c.principal c.world).1

/-- A step adds no call but that of the action that it executes. -/
theorem calls_of_nodeStep {reg : ToolRegistry σ} {s s' : NodeState σ} {l : NodeStep}
    (h : nodeStep reg state s l = some s') :
    s'.run.calls = s.run.calls ∨ ∃ att a, s.attempt = some att ∧ a ∈ att.todo ∧
      s'.run.calls = s.run.calls ++ [⟨a, getCurrentPrincipal state, s.run.world,
        (reg.execute a (getCurrentPrincipal state) s.run.world).1⟩] := by
  cases l with
  | execute =>
    simp only [nodeStep] at h
    split at h
    next a todo extra results hatt =>
      cases h
      exact Or.inr ⟨_, a, hatt, List.mem_cons_self, rfl⟩
    next => cases h
  | start | gates | query | append | read | finish | crash =>
    refine Or.inl ?_
    cases moves_of_nodeStep h <;> rfl

theorem todo_of_moves {s s' : NodeState σ} {l : NodeStep}
    (h : ∀ att, s.attempt = some att → ∀ a ∈ att.todo, a ∈ state.proposedActions)
    (hmoves : Moves state s l s') :
    ∀ att, s'.attempt = some att → ∀ a ∈ att.todo, a ∈ state.proposedActions := by
  rintro att hatt' a ha
  cases hmoves with
  | start => cases hatt'; exact ha
  | crash => cases hatt'
  | finish => cases hatt'
  | refuse hatt => cases hatt'; exact h _ hatt a (List.mem_cons_of_mem _ ha)
  | record hatt => cases hatt'; exact h _ hatt a (List.mem_cons_of_mem _ ha)
  | read hatt => cases hatt'; exact h _ hatt a (List.mem_cons_of_mem _ ha)
  | letThrough hatt => cases hatt'; exact h _ hatt a ha
  | queryYes hatt => cases hatt'; exact h _ hatt a ha
  | queryNo hatt => cases hatt'; exact h _ hatt a ha
  | execute hatt => cases hatt'; exact h _ hatt a ha
  | skip hatt => cases hatt'; exact h _ hatt a ha

theorem callsMade_step (s : RestartState σ) (l : RestartStep Ω σ) (s' : RestartState σ)
    (h : CallsMade reg state s.node) (hstep : restartStep d reg state s l = some s') :
    CallsMade reg state s'.node := by
  cases l with
  | node answers l =>
    simp only [restartStep, Option.ite_none_left_eq_some, Option.map_eq_some_iff] at hstep
    obtain ⟨-, node, hnode, rfl⟩ := hstep
    refine ⟨todo_of_moves h.todo (moves_of_nodeStep hnode), fun c hc => ?_⟩
    rcases calls_of_nodeStep hnode with hsame | ⟨att, a, hatt, ha, hcalls⟩
    · exact h.calls c (hsame ▸ hc)
    · rw [hcalls, List.mem_append, List.mem_singleton] at hc
      rcases hc with hc | rfl
      · exact h.calls c hc
      · exact ⟨h.todo att hatt a ha, answers, rfl⟩
  | outside world =>
    cases hstep
    exact ⟨h.todo, h.calls⟩
  | restart =>
    cases hstep
    exact ⟨(fun att hatt => by cases hatt), h.calls⟩

/-- An action whose tool cannot succeed does not. -/
theorem successes_eq_zero (hdead : ∀ a ∈ state.proposedActions, a.actionId = i → ∀ answers principal world,
      ((reg answers).execute a principal world).1.ok = false) {audit : AuditLog} {world : σ}
    {ls : List (RestartStep Ω σ)} {s : RestartState σ}
    (hrun : exec (restartStep d reg state) (upState audit world) ls = some s) :
    successesFor i s.node.run.calls = 0 := by
  have hstart : CallsMade reg state (upState audit world).node :=
    ⟨(fun att hatt => by cases hatt), fun c hc => absurd hc List.not_mem_nil⟩
  have hkeep : ∀ (s : RestartState σ) (l : RestartStep Ω σ) (s' : RestartState σ),
      CallsMade reg state s.node → restartStep d reg state s l = some s' → CallsMade reg state s'.node :=
    callsMade_step
  have hmade : CallsMade reg state s.node := invariant_of_exec hkeep hstart hrun
  refine List.countP_eq_zero.mpr fun c hc hcount => ?_
  rw [Bool.and_eq_true, beq_iff_eq] at hcount
  obtain ⟨hmem, answers, hresult⟩ := hmade.calls c hc
  rw [hresult, hdead _ hmem hcount.2] at hcount
  exact absurd hcount.1 Bool.false_ne_true

end dead

/-! ### A checkpoint that outlives the log -/

section repeated
variable {d : Durability} {reg : Ω → ToolRegistry σ} {state : AgentState}

/-- While there is a checkpoint, the steps of the node are those of `nodeStep`. -/
theorem exec_node (answers : Ω) : ∀ (ls : List NodeStep) (s : NodeState σ),
    exec (restartStep d reg state) ⟨s, true⟩ (ls.map (.node answers)) =
      (exec (nodeStep (reg answers) state) s ls).map fun node => ⟨node, true⟩
  | [], s => rfl
  | l :: ls, s => by
      rw [List.map_cons, exec, exec, restartStep, Bool.not_true, Bool.and_false, if_neg Bool.false_ne_true]
      cases nodeStep (reg answers) state s l with
      | none => rfl
      | some node => exact exec_node answers ls node

/-- An uninterrupted stretch forgets nothing. -/
theorem outputs_node (answers : Ω) : ∀ (ls : List NodeStep) (s : RestartState σ), .crash ∉ ls →
    outputs (restartStep d reg state) forgetsAt s (ls.map (.node answers)) = []
  | [], _, _ => rfl
  | l :: ls, s, hls => by
      rw [List.mem_cons, not_or] at hls
      have hforgets : forgetsAt s (.node answers l : RestartStep Ω σ) = [] := by
        cases l with
        | crash => exact absurd rfl hls.1
        | _ => rfl
      rw [List.map_cons, outputs, hforgets, List.nil_append]
      cases restartStep d reg state s (.node answers l) with
      | none => rfl
      | some s' => exact outputs_node answers ls s' hls.2

/-- A round of the executor over an empty log, for an action that may run and succeeds: one success more. -/
theorem successes_executorAction {reg : ToolRegistry σ} {p : Principal} {approved : List String}
    {policy : PolicyStore} {a : ProposedAction} {st : RunState σ} (hmay : MayRun reg p approved policy a)
    (hok : (reg.execute a p st.world).1.ok = true) (hempty : st.audit.events = []) :
    successesFor a.actionId (executorAction reg p approved policy a st).2.calls =
      successesFor a.actionId st.calls + 1 := by
  have hnew : alreadyExecuted a st.audit = false := by
    simp [alreadyExecuted, AuditLog.hasExecuted, hempty]
  rcases executorAction_cases reg p approved policy a st with ⟨hno, -⟩ | ⟨-, extra, heq⟩
  · exact absurd hmay hno
  · rw [heq, calls_executeGuarded, if_neg (by simp [hnew]), successesFor, List.countP_append,
      List.countP_singleton, hok, beq_self_eq_true]
    rfl

/-- Where the log is lost and the checkpoint is not, an action that may run and succeeds goes out as often as
    the process is restarted, and no success is ever taken away before it is in the log. -/
theorem exists_repeated {a : ProposedAction} {answers : Ω} {policy : PolicyStore} (hlost : d.log = false)
    (hkept : d.checkpoint = true) (hactions : state.proposedActions = [a])
    (hmay : MayRun (reg answers) (getCurrentPrincipal state) state.approvedActionIds policy a)
    (hok : ∀ world, ((reg answers).execute a (getCurrentPrincipal state) world).1.ok = true) (audit : AuditLog)
    (hfresh : audit.events = []) (world : σ) : ∀ n : ℕ, ∃ (ls : List (RestartStep Ω σ)) (s : NodeState σ),
    exec (restartStep d reg state) (upState audit world) ls = some ⟨s, true⟩ ∧
      outputs (restartStep d reg state) forgetsAt (upState audit world) ls = [] ∧
      successesFor a.actionId s.run.calls = n ∧ s.attempt = none ∧ s.run.audit.events = []
  | 0 => ⟨[], _, rfl, rfl, rfl, rfl, hfresh⟩
  | n + 1 => by
      obtain ⟨ls, s, hrun, hout, hcount, hidle, hempty⟩ :=
        exists_repeated hlost hkept hactions hmay hok audit hfresh world n
      obtain ⟨ms, hms, hattempt⟩ := exec_action (reg answers) state (fun _ => policy) 0 a [] []
        { s with attempt := some { todo := [a] } } rfl
      have hstarted : nodeStep (reg answers) state s .start =
          some { s with attempt := some { todo := [a] } } := by
        simp only [nodeStep, hidle, hactions]
      have hnode : exec (restartStep d reg state) ⟨s, true⟩ ((.start :: ms).map (.node answers)) = _ :=
        exec_node answers (.start :: ms) s
      rw [exec_cons_eq_some.mpr ⟨_, hstarted, hattempt⟩, Option.map_some] at hnode
      have hdone := exec_append.mpr ⟨_, hrun, hnode⟩
      have hrestart := exec_append.mpr
        ⟨_, hdone, show exec (restartStep d reg state) _ [.restart] = some _ from rfl⟩
      rw [hkept] at hrestart
      refine ⟨_, _, hrestart, ?_, ?_, rfl, ?_⟩
      · have hcrash : NodeStep.crash ∉ NodeStep.start :: ms := by simp [hms]
        rw [outputs_append _ hdone, outputs_append _ hrun, hout, outputs_node answers _ _ hcrash]
        rfl
      · rw [calls_withAudit, successes_executorAction hmay (hok s.run.world) hempty, hcount]
      · simp [Durability.logAfter, hlost]

end repeated

/-! ### The registry of the settings -/

/-- An action whose tool answers nothing but errors fails. -/
theorem ok_execute_eq_false {reg : ToolRegistry σ} {a : ProposedAction} {p : Principal} {world : σ}
    (h : ∀ tool, reg.get a.tool = .ok tool → ∀ args, ∃ e, (tool.run args p world).1 = .error e) :
    (reg.execute a p world).1.ok = false := by
  rw [ToolRegistry.execute]
  split
  next => rfl
  next tool args hresolve =>
    obtain ⟨e, he⟩ := h tool (ToolRegistry.resolve_eq_ok.mp hresolve).1 args
    split
    next v world' hrun =>
      rw [hrun] at he
      cases he
    next => rfl

section wired
variable {rt : BuildRuntime} {s : SettingsData}

/-- The tools that are live without the database: their sender is configured and the address of the database
    is there, if only as the empty text. -/
def LiveSender (rt : BuildRuntime) (s : SettingsData) (name : String) : Prop :=
  s.databaseUrl.isSome = true ∧ name ∉ (activeSchemas rt s).map (·.name) ∧
    (name = "send_email" ∧ s.emailConfigured = true ∨ name = "slack_post" ∧ s.slackConfigured = true)

theorem search_of_read {p : Providers} {resolver : Bool} {tool : BaseTool ToolWorld}
    (h : tool ∈ standardTools rt.casing rt.coerce (s.backends p resolver)) :
    tool.riskTier.isAutoSafe = true ↔ tool.name = "search" := by
  simp only [standardTools, List.mem_cons, List.not_mem_nil, or_false] at h
  rcases h with rfl | hsend
  · exact iff_of_true rfl rfl
  · refine iff_of_false ?_ ?_
    · rcases hsend with rfl | rfl | rfl | rfl | rfl <;> exact Bool.false_ne_true
    · rcases hsend with rfl | rfl | rfl | rfl | rfl <;> exact ne_of_beq_false rfl

/-- Without the database only a live sender does not fail. -/
theorem error_of_run (hdatabase : s.hasDatabase = false) {p : Providers} {reg : ToolRegistry ToolWorld}
    (hreg : buildRegistry rt s p = .ok reg) {name : String} (hlive : ¬LiveSender rt s name)
    (hsearch : name ∈ (activeSchemas rt s).map (·.name) ∨ name ≠ "search") {tool : BaseTool ToolWorld}
    (hget : reg.get name = .ok tool) (args : Args) (principal : Principal) (w : ToolWorld) :
    ∃ e, (tool.run args principal w).1 = .error e := by
  have hname : tool.name = name := reg.named (ToolRegistry.get_eq_ok_iff.mp hget)
  have hoauth := oauthToolsLive_eq s
  rcases tool_of_buildRegistry hreg hget with ⟨schema, -, -, made, hmade, rfl⟩ | ⟨hkept, hstandard⟩
  · obtain ⟨host, rfl⟩ := buildTool_eq_ok hmade
    refine ⟨⟨"RuntimeError", schema.name ++ " not configured"⟩, ?_⟩
    simp [BaseTool.ofSchema, AdapterEngine.schemaTool, AdapterEngine.runTool, adapterEngine,
      SettingsData.hasCredentialResolver, hdatabase]
  · replace hsearch := hsearch.resolve_left hkept
    have hemail : name = "send_email" → s.resolveEmailSender p = none := by
      intro hn
      rw [resolveEmailSender_eq, if_neg]
      rw [Bool.and_eq_true]
      exact fun h => hlive ⟨h.2, hkept, Or.inl ⟨hn, h.1⟩⟩
    have hslack : name = "slack_post" → s.resolveSlackSender p = none := by
      intro hn
      rw [resolveSlackSender_eq, if_neg]
      rw [Bool.and_eq_true]
      exact fun h => hlive ⟨h.2, hkept, Or.inr ⟨hn, h.1⟩⟩
    simp only [standardTools, List.mem_cons, List.not_mem_nil, or_false] at hstandard
    rcases hstandard with rfl | rfl | rfl | rfl | rfl | rfl
    · exact absurd hname.symm hsearch
    · simp only [sendEmailTool, sendEmailRun, SettingsData.backends, hemail hname.symm]
      split <;> exact ⟨_, rfl⟩
    · simp only [slackPostTool, slackPostRun, SettingsData.backends, hslack hname.symm]
      split <;> exact ⟨_, rfl⟩
    · simp only [gmailSendTool, gmailSendRun, SettingsData.backends, hoauth, hdatabase]
      split <;> exact ⟨_, rfl⟩
    · simp only [calendarCreateEventTool, calendarCreateEventRun, SettingsData.backends, hoauth, hdatabase]
      split <;> exact ⟨_, rfl⟩
    · simp only [BaseTool.within, slackPostAsUserTool, slackPostAsUserRun, SettingsData.backends, hoauth,
        hdatabase]
      split <;> exact ⟨_, rfl⟩

/-- A gated action that was planned from the registry does not search. -/
theorem searches_not {reg : Providers → ToolRegistry ToolWorld} (hreg : ∀ p, buildRegistry rt s p = .ok (reg p))
    {state : AgentState} (hplanned : Planned reg state) {a : ProposedAction} (ha : a ∈ state.proposedActions)
    (hgated : a.needsApproval = true) :
    a.tool ∈ (activeSchemas rt s).map (·.name) ∨ a.tool ≠ "search" := by
  obtain ⟨p, i, name, args, why, hpropose⟩ := hplanned a ha
  obtain ⟨tool, hget, -, hname, htier, -⟩ := ToolRegistry.propose_eq_ok hpropose
  rw [or_iff_not_imp_left]
  rintro hkept hsearch
  rcases tool_of_buildRegistry (hreg p) hget with ⟨schema, hmem, hschema, -⟩ | ⟨-, hstandard⟩
  · exact hkept (List.mem_map.mpr ⟨schema, hmem, hschema.trans hname.symm⟩)
  · have htool : tool.name = "search" := by
      rw [(reg p).named (ToolRegistry.get_eq_ok_iff.mp hget), ← hname, hsearch]
    rw [ProposedAction.needsApproval, requiresApproval_tier, htier, (search_of_read hstandard).mpr htool] at hgated
    cases hgated

/-- A valid call of a tool that answers every call, checkpointed and approved: its restarts are not bounded. -/
theorem exists_unbounded {reg : Ω → ToolRegistry σ} {d : Durability} (hlost : d.log = false)
    (hkept : d.checkpoint = true) {answers : Ω} {tool : BaseTool σ}
    (hget : (reg answers).get tool.name = .ok tool) (hgated : tool.riskTier.isAutoSafe = false) (args : Args)
    (hvalid : tool.argsSchema args = .ok args) {permission : String}
    (hpermission : tool.permissionFor args = .ok (some permission))
    (hok : ∀ principal world, ∃ v, (tool.run args principal world).1 = .ok v) (world : σ) :
    ∃ (state : AgentState) (ls : List (RestartStep Ω σ)) (s : RestartState σ), Planned reg state ∧
      (∀ a ∈ state.proposedActions, a.needsApproval = true) ∧
      exec (restartStep d reg state) (upState freshLog world) ls = some s ∧
      ¬successesFor "a1" s.node.run.calls ≤
        1 + (outputs (restartStep d reg state) forgetsAt (upState freshLog world) ls).count "a1" := by
  let a : ProposedAction :=
    { actionId := "a1", tool := tool.name, args := args, riskTier := tool.riskTier
      requiredPermission := some permission }
  let state : AgentState :=
    { principal := some { userId := "alice", roles := ["admin"] }, proposedActions := [a]
      approvedActionIds := ["a1"] }
  have hpropose : (reg answers).propose "a1" tool.name args = .ok a := by
    simp only [ToolRegistry.propose, hget, hvalid, hpermission, Fallible.ok_bind]
    rfl
  have hrequired : resolvePermission (reg answers) a = .ok (some permission) := by
    simp only [resolvePermission, requiredPermissionFor, a, hget, hvalid, hpermission, Fallible.ok_bind, if_true]
    rfl
  have hcan : DEFAULT_POLICY.can (some { userId := "alice", roles := ["admin"] }) (some permission) = true :=
    can_iff.mpr ⟨WILDCARD, by decide, Or.inl rfl⟩
  have hmay : MayRun (reg answers) (getCurrentPrincipal state) state.approvedActionIds DEFAULT_POLICY a :=
    ⟨⟨_, hrequired, hcan⟩, Or.inr List.mem_cons_self⟩
  have hruns : ∀ w, ((reg answers).execute a (getCurrentPrincipal state) w).1.ok = true := by
    intro w
    obtain ⟨v, hv⟩ := hok (getCurrentPrincipal state) w
    have hresolve : (reg answers).resolve a = .ok (tool, args) :=
      ToolRegistry.resolve_eq_ok.mpr ⟨hget, hvalid⟩
    rw [ToolRegistry.execute, hresolve]
    simp only
    split
    next => rfl
    next e w' hrun => rw [hrun] at hv; cases hv
  obtain ⟨ls, s, hrun, hout, hcount, -, -⟩ :=
    exists_repeated hlost hkept (show state.proposedActions = [a] from rfl) hmay hruns freshLog rfl world 2
  refine ⟨state, ls, _, ?_, ?_, hrun, ?_⟩
  · intro b hb
    rw [List.mem_singleton.mp hb]
    exact ⟨answers, _, _, _, _, hpropose⟩
  · intro b hb
    rw [List.mem_singleton.mp hb, ProposedAction.needsApproval, requiresApproval_tier, hgated]
    rfl
  · rw [hout]
    change ¬successesFor a.actionId s.run.calls ≤ 1 + 0
    omega

end wired

/-! ### What the settings promise -/

/-- Across any restarts, a gated action succeeds once, and once more for every success that a process took
    with it before it was in the log. -/
def SendsOnce (d : Durability) (reg : Ω → ToolRegistry σ) : Prop :=
  ∀ (state : AgentState) (i : String) (audit : AuditLog) (world : σ) (ls : List (RestartStep Ω σ))
    (t : RestartState σ), Planned reg state →
    (∀ a ∈ state.proposedActions, a.actionId = i → a.needsApproval = true) →
    exec (restartStep d reg state) (upState audit world) ls = some t →
    successesFor i t.node.run.calls ≤
      1 + (outputs (restartStep d reg state) forgetsAt (upState audit world) ls).count i

/-- A sender is live, the checkpoint is on disk, and the address of the database is left blank. -/
def LiveOverMemory (rt : BuildRuntime) (s : SettingsData) : Prop :=
  s.databaseUrl = some "" ∧ truthyText s.sqlitePath = true ∧ ∃ name, LiveSender rt s name

section settings
variable {rt : BuildRuntime} {s : SettingsData} {reg : Providers → ToolRegistry ToolWorld}

theorem sendsOnce_of_settings (hreg : ∀ p, buildRegistry rt s p = .ok (reg p)) (hsafe : ¬LiveOverMemory rt s) :
    SendsOnce s.durability reg := by
  intro state i audit world ls t hplanned hgated hrun
  cases hdatabase : s.hasDatabase with
  | true =>
    have hlog : s.durability.log = true := by
      rw [SettingsData.durability, SettingsData.makeAuditLog, hdatabase]
      rfl
    exact successes_le (Or.inl hlog) hgated hrun
  | false =>
    cases hsqlite : truthyText s.sqlitePath with
    | false =>
      have hcheckpoint : s.durability.checkpoint = false := by
        rw [SettingsData.durability, SettingsData.makeCheckpointer, hdatabase, hsqlite]
        rfl
      exact successes_le (Or.inr hcheckpoint) hgated hrun
    | true =>
      -- nothing that is gated is live
      have hlive : ∀ name, ¬LiveSender rt s name := fun name hname =>
        hsafe ⟨(databaseUrl_eq_blank s hdatabase).mp hname.1, hsqlite, name, hname⟩
      have hzero : successesFor i t.node.run.calls = 0 := by
        refine successes_eq_zero (fun a ha hid answers principal w => ok_execute_eq_false ?_) hrun
        intro tool hget args
        have hsearch := searches_not hreg hplanned ha (hgated a ha hid)
        exact error_of_run hdatabase (hreg answers) (hlive a.tool) hsearch hget args principal w
      omega

/-- A valid email and a valid post. -/
def sampleEmail : Args := [("to", .str "a@b"), ("subject", .str ""), ("body", .str "")]

def samplePost : Args := [("channel", .str "g"), ("text", .str "hi")]

theorem sampleEmail_valid (coerce : String → Json → Except String Json) :
    emailArgs coerce "_SendEmailArgs" sampleEmail = .ok sampleEmail := rfl

theorem samplePost_valid (casing : Casing) (coerce : String → Json → Except String Json) :
    slackPostArgs casing coerce samplePost = .ok samplePost := by
  have hchannel : rejectNonChannelTargets casing "g" = .ok (.str "g") := by
    have hshort : ¬(casing.upper (takeChars 1 (strip "g")) ∈ ["U", "D"] ∧ 1 < (strip "g").length) :=
      fun h => absurd h.2 (by decide)
    rw [rejectNonChannelTargets, if_neg (by decide), if_neg hshort, if_neg (by decide)]
    rfl
  have hfirst : ((FieldDef.validate coerce { name := "channel", minLength := some 1 } (some (.str "g"))).bind
      (channelValidator casing "channel")) = .ok (.str "g") := hchannel
  rw [slackPostArgs, modelValidateAfter, slackPostFields, samplePost, List.mapM_cons]
  simp only [Json.field?, List.lookup, beq_self_eq_true, hfirst]
  rfl

theorem run_sampleEmail {b : Backends} {send : EmailMessage → Except PyError Json} (h : b.email = some send)
    (principal : Principal) (w : ToolWorld) :
    (sendEmailRun b sampleEmail principal w).1 = send { recipient := "a@b" } := by
  cases b
  cases h
  rfl

theorem run_samplePost {b : Backends} {post : SlackMessage → Except PyError Json} (h : b.slack = some post)
    (principal : Principal) (w : ToolWorld) :
    (slackPostRun b samplePost principal w).1 = post ⟨"g", "hi"⟩ := by
  cases b
  cases h
  rfl

theorem not_sendsOnce_of_settings (hreg : ∀ p, buildRegistry rt s p = .ok (reg p)) (hlive : LiveOverMemory rt s)
    (world : ToolWorld) : ¬SendsOnce s.durability reg := by
  obtain ⟨hblank, hsqlite, name, -, hkept, hsender⟩ := hlive
  have hdatabase : s.hasDatabase = false := by rw [SettingsData.hasDatabase, hblank]; rfl
  have hlog : s.durability.log = false := by
    rw [SettingsData.durability, SettingsData.makeAuditLog, hdatabase]
    rfl
  have hcheckpoint : s.durability.checkpoint = true := by
    rw [SettingsData.durability, SettingsData.makeCheckpointer, hdatabase, hsqlite]
    rfl
  suffices h : ∃ (state : AgentState) (ls : List (RestartStep Providers ToolWorld)) (t : RestartState ToolWorld),
      Planned reg state ∧ (∀ a ∈ state.proposedActions, a.needsApproval = true) ∧
      exec (restartStep s.durability reg state) (upState freshLog world) ls = some t ∧
      ¬successesFor "a1" t.node.run.calls ≤
        1 + (outputs (restartStep s.durability reg state) forgetsAt (upState freshLog world) ls).count "a1" by
    obtain ⟨state, ls, t, hplanned, hgated, hrun, hmore⟩ := h
    exact fun honce => hmore (honce state "a1" freshLog world ls t hplanned (fun a ha _ => hgated a ha) hrun)
  rcases hsender with ⟨rfl, hconfigured⟩ | ⟨rfl, hconfigured⟩
  · have hsend : (s.backends agreeable s.hasCredentialResolver).email = some agreeable.email := by
      simp [SettingsData.backends, resolveEmailSender_eq, hconfigured, hblank]
    exact exists_unbounded hlog hcheckpoint (get_standardTool (hreg agreeable) sendEmailTool_mem hkept) rfl
      sampleEmail (sampleEmail_valid rt.coerce) rfl (fun principal w => ⟨_, run_sampleEmail hsend principal w⟩)
      world
  · have hpost : (s.backends agreeable s.hasCredentialResolver).slack = some agreeable.slack := by
      simp [SettingsData.backends, resolveSlackSender_eq, hconfigured, hblank]
    exact exists_unbounded hlog hcheckpoint (get_standardTool (hreg agreeable) slackPostTool_mem hkept) rfl
      samplePost (samplePost_valid rt.casing rt.coerce) rfl
      (fun principal w => ⟨_, run_samplePost hpost principal w⟩) world

end settings

/-- A world in which nothing has been sent. -/
def idleWorld : ToolWorld where
  getAccessToken _ _ _ := .error ⟨"CredentialAccessError", "not connected"⟩
  delivery := .refused ⟨"ConnectError", ""⟩

/-- The settings bound what goes out for an action over every run with restarts, whatever the providers
    answer and when, exactly when they leave no sender live over a log in memory with a checkpoint on disk. -/
theorem restarts_account_iff (rt : BuildRuntime) (s : SettingsData) (reg : Providers → ToolRegistry ToolWorld)
    (hreg : ∀ p, buildRegistry rt s p = .ok (reg p)) : SendsOnce s.durability reg ↔ ¬LiveOverMemory rt s :=
  ⟨fun honce hlive => not_sendsOnce_of_settings hreg hlive idleWorld honce, sendsOnce_of_settings hreg⟩

/-! ### An environment with a blank address -/

/-- The example environment as it is copied, with a key to send email with and a file for the checkpoints. -/
def copiedSettings : Settings bareRuntime.toConfigRuntime where
  databaseUrl := some ""
  sqlitePath := some "atlas.db"
  resendApiKey := some "re_key"
  emailFrom := some "atlas@example.com"
  valid := rfl

def copiedRegistry (p : Providers) : ToolRegistry ToolWorld :=
  (buildRegistry bareRuntime copiedSettings.toSettingsData p).toOption.getD .empty

/-- Validation lets it through, and its emails go out again after every restart. -/
theorem restarts_account_copied : ¬SendsOnce copiedSettings.durability copiedRegistry := fun honce =>
  (restarts_account_iff bareRuntime copiedSettings.toSettingsData copiedRegistry fun _ => rfl).mp honce
    ⟨rfl, rfl, "send_email", rfl, List.not_mem_nil, Or.inl ⟨rfl, rfl⟩⟩

end Atlas
