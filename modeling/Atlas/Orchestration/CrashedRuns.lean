import Atlas.Execution.Ledger
import Atlas.Lib.Run
import Atlas.Orchestration.ExecutorGate

/-! The executor node under crashes. One process at a time runs the node over a checkpointed state; it
    may die between any two steps, and the next attempt starts the node over, from the same checkpoint.
    The audit log and the world survive, the results do not. A crash after a successful tool run and
    before its append is the only one that matters (`exec_balance`): a gated action succeeds once, and
    once more for each crash there (`crashes_account`), and never again once its event is in the log. -/

namespace Atlas

open LabelledRun

variable {σ : Type}

/-! ### The gates apart from the execution -/

/-- What the executor checks before `execute_guarded`: the log after a refusal, or the audit context. -/
def gateAction (reg : ToolRegistry σ) (principal : Principal) (approved : List String)
    (policy : PolicyStore) (action : ProposedAction) (audit : AuditLog) :
    Except AuditLog (Option AuditToolContext) :=
  match reg.get action.tool with
  | .error _ => .error (audit.denied action principal.userId "unknown tool"
      (some { principal := some principal.userId }))
  | .ok tool =>
    let context := some (tool.auditContext principal)
    match requiredPermissionFor action tool with
    | .error _ => .error (audit.denied action principal.userId
        "could not resolve required permission" context)
    | .ok required =>
      if !policy.can (some principal) required then
        .error (audit.denied action principal.userId (missingPermission required) context)
      else if requiresApproval (.tier action.riskTier) && !approved.contains action.actionId then
        .error (audit.skipped action "not approved" context)
      else .ok context

theorem executorAction_eq_gate (reg : ToolRegistry σ) (p : Principal) (approved : List String)
    (policy : PolicyStore) (a : ProposedAction) (st : RunState σ) :
    executorAction reg p approved policy a st =
      match gateAction reg p approved policy a st.audit with
      | .error audit => (none, st.withAudit audit)
      | .ok extra => (some (executeGuarded reg a p extra st).1, (executeGuarded reg a p extra st).2) := by
  rw [executorAction, gateAction]
  cases reg.get a.tool with
  | error e => rfl
  | ok tool =>
    simp only
    cases requiredPermissionFor a tool with
    | error e => rfl
    | ok required =>
      simp only
      split
      · rfl
      · split <;> rfl

/-- A refusal is not an execution. -/
theorem refusal_gateAction {reg : ToolRegistry σ} {p : Principal} {approved : List String}
    {policy : PolicyStore} {a : ProposedAction} {log log' : AuditLog}
    (h : gateAction reg p approved policy a log = .error log') : Refusal a log log' := by
  rw [gateAction] at h
  split at h
  · cases h; exact refusal_denied a _ _ _ _
  · simp only at h
    split at h
    · cases h; exact refusal_denied a _ _ _ _
    · split at h
      · cases h; exact refusal_denied a _ _ _ _
      · split at h
        · cases h; exact refusal_skipped a _ _ _
        · cases h

/-! ### Attempts -/

/-- Where an attempt stands with the first action of its list. -/
inductive Stage where
  | gates
  | query (extra : Option AuditToolContext)     -- all gates were open
  | cleared (extra : Option AuditToolContext)   -- `has_executed` answered no
  | ran (extra : Option AuditToolContext) (r : ActionResult)  -- its event is not appended yet
  | skipping (extra : Option AuditToolContext)  -- `has_executed` answered yes
  | skipped                                     -- the replay event is appended

/-- One pass of the node: what is left of the list, and the results so far. -/
structure Attempt where
  todo : List ProposedAction
  stage : Stage := .gates
  results : List ActionResult := []

/-- The log, the world and the calls, which survive a crash; the attempt, which does not; and what the
    attempts that reached their end returned. -/
structure NodeState (σ : Type) where
  run : RunState σ
  attempt : Option Attempt := none
  returned : List (List ActionResult) := []

inductive NodeStep where
  | start
  | gates (policy : PolicyStore)  -- the store as this check finds it
  | query
  | execute
  | append
  | read
  | finish
  | crash

section step
variable (reg : ToolRegistry σ) (state : AgentState)

/-- One step of the process that runs `executor_node` over the checkpointed `state`. -/
def nodeStep (s : NodeState σ) : NodeStep → Option (NodeState σ)
  | .start =>
    match s.attempt with
    | none => some { s with attempt := some { todo := state.proposedActions } }
    | some _ => none
  | .crash =>
    match s.attempt with
    | some _ => some { s with attempt := none }
    | none => none
  | .gates policy =>
    match s.attempt with
    | some ⟨action :: todo, .gates, results⟩ =>
      match gateAction reg (getCurrentPrincipal state) state.approvedActionIds policy action
          s.run.audit with
      | .error audit => some { s with run := s.run.withAudit audit, attempt := some ⟨todo, .gates, results⟩ }
      | .ok extra => some { s with attempt := some ⟨action :: todo, .query extra, results⟩ }
    | _ => none
  | .query =>
    match s.attempt with
    | some ⟨action :: todo, .query extra, results⟩ =>
      let stage := if alreadyExecuted action s.run.audit then .skipping extra else .cleared extra
      some { s with attempt := some ⟨action :: todo, stage, results⟩ }
    | _ => none
  | .execute =>
    match s.attempt with
    | some ⟨action :: todo, .cleared extra, results⟩ =>
      let principal := getCurrentPrincipal state
      let (result, world) := reg.execute action principal s.run.world
      let calls := s.run.calls ++ [⟨action, principal, s.run.world, result⟩]
      some { s with
        run := { s.run with world := world, calls := calls }
        attempt := some ⟨action :: todo, .ran extra result, results⟩ }
    | _ => none
  | .append =>
    match s.attempt with
    | some ⟨_ :: todo, .ran extra result, results⟩ =>
      some { s with
        run := s.run.withAudit (recordOutcome s.run.audit result extra)
        attempt := some ⟨todo, .gates, results ++ [result]⟩ }
    | some ⟨action :: todo, .skipping extra, results⟩ =>
      some { s with
        run := s.run.withAudit (s.run.audit.replaySkipped action "already executed" extra)
        attempt := some ⟨action :: todo, .skipped, results⟩ }
    | _ => none
  | .read =>
    match s.attempt with
    | some ⟨action :: todo, .skipped, results⟩ =>
      let results := results ++ [replayResult action s.run.audit]
      some { s with attempt := some ⟨todo, .gates, results⟩ }
    | _ => none
  | .finish =>
    match s.attempt with
    | some ⟨[], .gates, results⟩ =>
      some { s with attempt := none, returned := s.returned ++ [results] }
    | _ => none

/-- The action whose tool has just succeeded, as long as its event is not appended. -/
def unrecorded (s : NodeState σ) : List String :=
  match s.attempt with
  | some ⟨_ :: _, .ran _ result, _⟩ => if result.ok then [result.actionId] else []
  | _ => []

/-- The success that a step forgets: the process dies between a tool's success and its event. -/
def forgets (s : NodeState σ) : NodeStep → List String
  | .crash => unrecorded s
  | _ => []

end step

/-! ### What one step does -/

/-- The kinds of steps, each with the attempt it needs and the state it leaves. -/
inductive Moves (state : AgentState) (s : NodeState σ) : NodeStep → NodeState σ → Prop where
  | start (hatt : s.attempt = none) :
      Moves state s .start { s with attempt := some { todo := state.proposedActions } }
  | crash (hatt : s.attempt.isSome = true) : Moves state s .crash { s with attempt := none }
  | finish {results} (hatt : s.attempt = some ⟨[], .gates, results⟩) :
      Moves state s .finish { s with attempt := none, returned := s.returned ++ [results] }
  | refuse {policy a todo results audit} (hatt : s.attempt = some ⟨a :: todo, .gates, results⟩)
      (hrefusal : Refusal a s.run.audit audit) :
      Moves state s (.gates policy)
        { s with run := s.run.withAudit audit, attempt := some ⟨todo, .gates, results⟩ }
  | letThrough {policy a todo results extra} (hatt : s.attempt = some ⟨a :: todo, .gates, results⟩) :
      Moves state s (.gates policy) { s with attempt := some ⟨a :: todo, .query extra, results⟩ }
  | queryYes {a todo results extra} (hatt : s.attempt = some ⟨a :: todo, .query extra, results⟩)
      (hex : alreadyExecuted a s.run.audit = true) :
      Moves state s .query { s with attempt := some ⟨a :: todo, .skipping extra, results⟩ }
  | queryNo {a todo results extra} (hatt : s.attempt = some ⟨a :: todo, .query extra, results⟩)
      (hex : alreadyExecuted a s.run.audit = false) :
      Moves state s .query { s with attempt := some ⟨a :: todo, .cleared extra, results⟩ }
  | execute {a todo results extra r world} (hatt : s.attempt = some ⟨a :: todo, .cleared extra, results⟩)
      (hid : r.actionId = a.actionId) :
      Moves state s .execute { s with
        run := { s.run with
          world := world
          calls := s.run.calls ++ [⟨a, getCurrentPrincipal state, s.run.world, r⟩] }
        attempt := some ⟨a :: todo, .ran extra r, results⟩ }
  | record {a todo results extra r} (hatt : s.attempt = some ⟨a :: todo, .ran extra r, results⟩) :
      Moves state s .append { s with
        run := s.run.withAudit (recordOutcome s.run.audit r extra)
        attempt := some ⟨todo, .gates, results ++ [r]⟩ }
  | skip {a todo results extra} (hatt : s.attempt = some ⟨a :: todo, .skipping extra, results⟩) :
      Moves state s .append { s with
        run := s.run.withAudit (s.run.audit.replaySkipped a "already executed" extra)
        attempt := some ⟨a :: todo, .skipped, results⟩ }
  | read {a todo results} (hatt : s.attempt = some ⟨a :: todo, .skipped, results⟩) :
      Moves state s .read { s with
        attempt := some ⟨todo, .gates, results ++ [replayResult a s.run.audit]⟩ }

section facts
variable {reg : ToolRegistry σ} {state : AgentState} {s s' : NodeState σ} {l : NodeStep}

theorem moves_of_nodeStep (h : nodeStep reg state s l = some s') : Moves state s l s' := by
  cases l with
  | start =>
    simp only [nodeStep] at h
    split at h
    next hatt => cases h; exact .start hatt
    next => cases h
  | crash =>
    simp only [nodeStep] at h
    split at h
    next hatt => cases h; exact .crash (by rw [hatt]; rfl)
    next => cases h
  | finish =>
    simp only [nodeStep] at h
    split at h
    next hatt => cases h; exact .finish hatt
    next => cases h
  | gates policy =>
    simp only [nodeStep] at h
    split at h
    next a todo results hatt =>
      split at h
      next audit hgate => cases h; exact .refuse hatt (refusal_gateAction hgate)
      next extra hgate => cases h; exact .letThrough hatt
    next => cases h
  | query =>
    simp only [nodeStep] at h
    split at h
    next a todo extra results hatt =>
      cases hex : alreadyExecuted a s.run.audit with
      | true => simp only [hex, if_true] at h; cases h; exact .queryYes hatt hex
      | false =>
        simp only [hex, Bool.false_eq_true, if_false] at h
        cases h
        exact .queryNo hatt hex
    next => cases h
  | execute =>
    simp only [nodeStep] at h
    split at h
    next hatt => cases h; exact .execute hatt (ToolRegistry.actionId_execute ..)
    next => cases h
  | append =>
    simp only [nodeStep] at h
    split at h
    next hatt => cases h; exact .record hatt
    next hatt => cases h; exact .skip hatt
    next => cases h
  | read =>
    simp only [nodeStep] at h
    split at h
    next hatt => cases h; exact .read hatt
    next => cases h

end facts

/-! ### An attempt that nothing interrupts -/

section attempt
variable (reg : ToolRegistry σ) (state : AgentState)

/-- The steps for one action do what one round of the executor's loop does. -/
theorem exec_action (policy : ℕ → PolicyStore) (i : ℕ) (a : ProposedAction)
    (todo : List ProposedAction) (results : List ActionResult) (s : NodeState σ)
    (hatt : s.attempt = some ⟨a :: todo, .gates, results⟩) :
    ∃ ls, .crash ∉ ls ∧ exec (nodeStep reg state) s ls = some { s with
      run := (executorAction reg (getCurrentPrincipal state) state.approvedActionIds (policy i) a
        s.run).2
      attempt := some ⟨todo, .gates, results ++ (executorAction reg (getCurrentPrincipal state)
        state.approvedActionIds (policy i) a s.run).1.toList⟩ } := by
  rw [executorAction_eq_gate]
  cases hgate : gateAction reg (getCurrentPrincipal state) state.approvedActionIds (policy i) a
      s.run.audit with
  | error audit =>
    refine ⟨[.gates (policy i)], by simp, ?_⟩
    simp [exec, nodeStep, hatt, hgate]
  | ok extra =>
    cases hex : alreadyExecuted a s.run.audit with
    | true =>
      refine ⟨[.gates (policy i), .query, .append, .read], by simp, ?_⟩
      simp [exec, nodeStep, hatt, hgate, hex, executeGuarded]
    | false =>
      refine ⟨[.gates (policy i), .query, .execute, .append], by simp, ?_⟩
      simp [exec, nodeStep, hatt, hgate, hex, executeGuarded, RunState.withAudit]

theorem exec_loop (policy : ℕ → PolicyStore) : ∀ (todo : List ProposedAction) (i : ℕ)
    (results : List ActionResult) (s : NodeState σ), s.attempt = some ⟨todo, .gates, results⟩ →
    ∃ ls, .crash ∉ ls ∧ exec (nodeStep reg state) s ls = some { s with
      run := (executorLoop reg (getCurrentPrincipal state) state.approvedActionIds policy i todo s.run).2
      attempt := some ⟨[], .gates, results ++ (executorLoop reg (getCurrentPrincipal state)
        state.approvedActionIds policy i todo s.run).1⟩ }
  | [], _, results, s, hatt => by
      refine ⟨[], by simp, ?_⟩
      simp [exec, executorLoop, ← hatt]
  | a :: todo, i, results, s, hatt => by
      obtain ⟨ls, hls, hfirst⟩ := exec_action reg state policy i a todo results s hatt
      obtain ⟨ms, hms, hrest⟩ := exec_loop policy todo (i + 1)
        (results ++ (executorAction reg (getCurrentPrincipal state) state.approvedActionIds (policy i) a
          s.run).1.toList)
        { s with
          run := (executorAction reg (getCurrentPrincipal state) state.approvedActionIds (policy i) a
            s.run).2
          attempt := some ⟨todo, .gates, results ++ (executorAction reg (getCurrentPrincipal state)
            state.approvedActionIds (policy i) a s.run).1.toList⟩ } rfl
      refine ⟨ls ++ ms, by simp [hls, hms], exec_append.mpr ⟨_, hfirst, hrest.trans ?_⟩⟩
      simp [executorLoop]

/-- An attempt that nothing interrupts is `executor_node`. -/
theorem exec_attempt (policy : ℕ → PolicyStore) (s : NodeState σ) (hdown : s.attempt = none) :
    ∃ ls, .crash ∉ ls ∧ exec (nodeStep reg state) s ls = some {
      run := (executorNode reg policy state s.run).2
      attempt := none
      returned := s.returned ++ [(executorNode reg policy state s.run).1.actionResults] } := by
  obtain ⟨ls, hls, hrun⟩ := exec_loop reg state policy state.proposedActions 0 []
    { s with attempt := some { todo := state.proposedActions } } rfl
  refine ⟨.start :: ls ++ [.finish], by simp [hls], ?_⟩
  refine exec_append.mpr ⟨_, exec_cons_eq_some.mpr ⟨_, by simp [nodeStep, hdown], hrun⟩, ?_⟩
  simp [exec, nodeStep, executorNode]

end attempt

/-! ### What the log counts -/

/-- The executions of an action that the log counts. -/
def countedIn (i : String) (log : AuditLog) : ℕ := log.events.countP (countedFor i)

/-- The tool runs of an action that succeeded. -/
def successesFor (i : String) (calls : List (Call σ)) : ℕ :=
  calls.countP fun c => c.result.ok && c.action.actionId == i

theorem hasExecuted_iff_countedIn {log : AuditLog} {i : String} :
    log.hasExecuted i = true ↔ 0 < countedIn i log := by
  rw [countedIn, List.countP_pos_iff, AuditLog.hasExecuted, List.any_eq_true]
  rfl

theorem hasExecuted_eq_false_iff {log : AuditLog} {i : String} :
    log.hasExecuted i = false ↔ countedIn i log = 0 := by
  rw [← Bool.not_eq_true, hasExecuted_iff_countedIn, Nat.pos_iff_ne_zero, not_not]

theorem countedIn_of_refusal {a : ProposedAction} {log log' : AuditLog} (h : Refusal a log log')
    (i : String) : countedIn i log' = countedIn i log := by
  obtain ⟨e, rfl, -, ht⟩ := h
  have hnot : e.eventType ≠ .executed := by
    rcases ht with ht | ht <;> simp [ht]
  simp [countedIn, List.countP_append, countedFor, countsAsExecuted_eq_false hnot]

@[simp] theorem countedIn_replaySkipped (i : String) (log : AuditLog) (a : ProposedAction)
    (reason : String) (extra : Option AuditToolContext) :
    countedIn i (log.replaySkipped a reason extra) = countedIn i log := by
  simp [countedIn, AuditLog.replaySkipped, AuditLog.record, countedFor, countsAsExecuted]

@[simp] theorem countedIn_recordOutcome (i : String) (log : AuditLog) (r : ActionResult)
    (extra : Option AuditToolContext) :
    countedIn i (recordOutcome log r extra) = countedIn i log + (r.ok && r.actionId == i).toNat := by
  obtain ⟨e, hevents, hid, hcounts, hfailed⟩ := events_recordOutcome log r extra
  rw [countedIn, hevents, List.countP_append, List.countP_singleton, countedFor, hid, countedIn]
  cases hok : r.ok with
  | true => rw [hcounts hok]; cases r.actionId == i <;> rfl
  | false => rw [countsAsExecuted_eq_false (by rw [hfailed hok]; decide)]; rfl

/-! ### The invariant of the attempt -/

/-- What the stage says about the action it is at, where the log counts `n` executions of `i`. -/
def Stage.Fits (i : String) (a : ProposedAction) (n : ℕ) : Stage → Prop
  | .cleared _ => a.actionId = i → n = 0
  | .ran _ r => r.actionId = a.actionId ∧ (a.actionId = i → n = 0)
  | .skipping _ | .skipped => a.actionId = i → 0 < n
  | .gates | .query _ => True

/-- A result that reports success is in the log. -/
def Acknowledged (i : String) (n : ℕ) (results : List ActionResult) : Prop :=
  ∀ r ∈ results, r.ok = true → r.actionId = i → 0 < n

structure Attempt.Sound (state : AgentState) (i : String) (n : ℕ) (att : Attempt) : Prop where
  members : ∀ a ∈ att.todo, a ∈ state.proposedActions
  fits : ∀ a todo, att.todo = a :: todo → att.stage.Fits i a n
  acknowledged : Acknowledged i n att.results

/-- What every reachable state satisfies. -/
structure NodeState.Sound (state : AgentState) (i : String) (s : NodeState σ) : Prop where
  attempt : ∀ att, s.attempt = some att → att.Sound state i (countedIn i s.run.audit)
  returned : ∀ rs ∈ s.returned, Acknowledged i (countedIn i s.run.audit) rs

theorem Acknowledged.mono {i : String} {n m : ℕ} {rs : List ActionResult} (h : Acknowledged i n rs)
    (hle : n ≤ m) : Acknowledged i m rs :=
  fun r hr hok hid => lt_of_lt_of_le (h r hr hok hid) hle

theorem Acknowledged.concat {i : String} {n : ℕ} {rs : List ActionResult} {r : ActionResult}
    (h : Acknowledged i n rs) (hr : r.ok = true → r.actionId = i → 0 < n) :
    Acknowledged i n (rs ++ [r]) := by
  intro r' hr'
  rcases List.mem_append.mp hr' with hr' | hr'
  · exact h r' hr'
  · rw [List.mem_singleton.mp hr']; exact hr

section invariant
variable {reg : ToolRegistry σ} {state : AgentState} {i : String}

/-- The log only counts more. -/
theorem countedIn_mono {s s' : NodeState σ} {l : NodeStep} (h : Moves state s l s') :
    countedIn i s.run.audit ≤ countedIn i s'.run.audit := by
  cases h with
  | refuse _ hrefusal => simp [countedIn_of_refusal hrefusal]
  | record _ => simp
  | skip _ => simp
  | start | crash | finish | letThrough | queryYes | queryNo | execute | read => exact le_rfl

theorem sound_of_moves (hgated : ∀ a ∈ state.proposedActions, a.actionId = i → a.needsApproval = true)
    {s s' : NodeState σ} {l : NodeStep} (hs : s.Sound state i) (h : Moves state s l s') :
    s'.Sound state i := by
  have hreturned : ∀ rs ∈ s.returned, Acknowledged i (countedIn i s'.run.audit) rs :=
    fun rs hrs => (hs.returned rs hrs).mono (countedIn_mono h)
  cases h with
  | start hatt =>
    refine ⟨?_, hreturned⟩
    rintro att ⟨⟩
    exact ⟨fun a ha => ha, fun a todo _ => trivial, by simp [Acknowledged]⟩
  | crash hatt => exact ⟨by simp, hreturned⟩
  | finish hatt =>
    refine ⟨by simp, fun rs hrs => ?_⟩
    rcases List.mem_append.mp hrs with hrs | hrs
    · exact hreturned rs hrs
    · rw [List.mem_singleton.mp hrs]; exact (hs.attempt _ hatt).acknowledged
  | refuse hatt hrefusal =>
    refine ⟨?_, hreturned⟩
    rintro att ⟨⟩
    obtain ⟨hmem, -, hack⟩ := hs.attempt _ hatt
    refine ⟨fun b hb => hmem b (List.mem_cons_of_mem _ hb), fun b todo _ => trivial, ?_⟩
    simpa [countedIn_of_refusal hrefusal] using hack
  | letThrough hatt =>
    refine ⟨?_, hreturned⟩
    rintro att ⟨⟩
    obtain ⟨hmem, -, hack⟩ := hs.attempt _ hatt
    exact ⟨hmem, fun b todo _ => trivial, hack⟩
  | @queryYes a todo results extra hatt hex =>
    refine ⟨?_, hreturned⟩
    rintro att ⟨⟩
    obtain ⟨hmem, -, hack⟩ := hs.attempt _ hatt
    refine ⟨hmem, ?_, hack⟩
    rintro b rest ⟨⟩ rfl
    rw [alreadyExecuted, Bool.and_eq_true] at hex
    exact hasExecuted_iff_countedIn.mp hex.2
  | @queryNo a todo results extra hatt hex =>
    refine ⟨?_, hreturned⟩
    rintro att ⟨⟩
    obtain ⟨hmem, -, hack⟩ := hs.attempt _ hatt
    refine ⟨hmem, ?_, hack⟩
    rintro b rest ⟨⟩ rfl
    have hneeds : requiresApproval (.tier a.riskTier) = true := hgated a (hmem a (by simp)) rfl
    rw [alreadyExecuted, hneeds, Bool.true_and] at hex
    exact hasExecuted_eq_false_iff.mp hex
  | @execute a todo results extra r world hatt hid =>
    refine ⟨?_, hreturned⟩
    rintro att ⟨⟩
    obtain ⟨hmem, hfits, hack⟩ := hs.attempt _ hatt
    refine ⟨hmem, ?_, hack⟩
    rintro b rest ⟨⟩
    exact ⟨hid, hfits a todo rfl⟩
  | @record a todo results extra r hatt =>
    refine ⟨?_, hreturned⟩
    rintro att ⟨⟩
    obtain ⟨hmem, -, hack⟩ := hs.attempt _ hatt
    refine ⟨fun b hb => hmem b (List.mem_cons_of_mem _ hb), fun b todo _ => trivial, ?_⟩
    refine (hack.mono (by simp)).concat fun hok hid => ?_
    simp [hok, hid]
  | @skip a todo results extra hatt =>
    refine ⟨?_, hreturned⟩
    rintro att ⟨⟩
    obtain ⟨hmem, hfits, hack⟩ := hs.attempt _ hatt
    refine ⟨hmem, ?_, by simpa using hack⟩
    rintro b rest ⟨⟩
    simpa [Stage.Fits] using hfits a todo rfl
  | @read a todo results hatt =>
    refine ⟨?_, hreturned⟩
    rintro att ⟨⟩
    obtain ⟨hmem, hfits, hack⟩ := hs.attempt _ hatt
    exact ⟨fun b hb => hmem b (List.mem_cons_of_mem _ hb), fun b todo _ => trivial,
      hack.concat fun _ hid => hfits a todo rfl hid⟩

/-- Every success is in the log, was forgotten in a crash, or waits for its event. -/
def Balanced (i : String) (counted : ℕ) (lost : List String) (s : NodeState σ) : Prop :=
  successesFor i s.run.calls + counted = countedIn i s.run.audit + (lost ++ unrecorded s).count i

theorem unrecorded_ran {s : NodeState σ} {a todo extra r results}
    (hatt : s.attempt = some ⟨a :: todo, .ran extra r, results⟩) :
    unrecorded s = if r.ok then [r.actionId] else [] := by
  simp only [unrecorded, hatt]

theorem balanced_of_moves {counted : ℕ} {lost : List String} {s s' : NodeState σ} {l : NodeStep}
    (hb : Balanced i counted lost s) (h : Moves state s l s') : Balanced i counted (lost ++ forgets s l) s' := by
  unfold Balanced at hb ⊢
  cases h with
  | start hatt => simpa [forgets, unrecorded, hatt] using hb
  | crash hatt => simpa [forgets, unrecorded] using hb
  | finish hatt => simpa [forgets, unrecorded, hatt] using hb
  | refuse hatt hrefusal =>
    simpa [forgets, unrecorded, hatt, countedIn_of_refusal hrefusal] using hb
  | letThrough hatt => simpa [forgets, unrecorded, hatt] using hb
  | queryYes hatt => simpa [forgets, unrecorded, hatt] using hb
  | queryNo hatt => simpa [forgets, unrecorded, hatt] using hb
  | @execute a todo results extra r world hatt hid =>
    have hnone : unrecorded s = [] := by simp [unrecorded, hatt]
    rw [hnone, List.append_nil] at hb
    rw [unrecorded_ran rfl]
    simp only [forgets, List.append_nil, successesFor, List.countP_append, List.countP_singleton,
      List.count_append] at hb ⊢
    cases hok : r.ok with
    | false => simpa [hok] using hb
    | true =>
      by_cases hi : a.actionId = i
      · simp [hid, hi]; omega
      · simp [hid, hi]; omega
  | @record a todo results extra r hatt =>
    rw [unrecorded_ran hatt] at hb
    have hnone : unrecorded (σ := σ) { s with
        run := s.run.withAudit (recordOutcome s.run.audit r extra)
        attempt := some ⟨todo, .gates, results ++ [r]⟩ } = [] := by simp [unrecorded]
    rw [hnone]
    simp only [forgets, List.append_nil, calls_withAudit, audit_withAudit, countedIn_recordOutcome]
    rw [hb, List.count_append]
    cases hok : r.ok with
    | false => simp
    | true =>
      by_cases hi : r.actionId = i
      · simp [hi]; omega
      · simp [hi]
  | skip hatt => simpa [forgets, unrecorded, hatt] using hb
  | read hatt => simpa [forgets, unrecorded, hatt] using hb

theorem countedIn_le_of_moves {n : ℕ} {s s' : NodeState σ} {l : NodeStep} (hs : s.Sound state i)
    (hle : countedIn i s.run.audit ≤ max 1 n) (h : Moves state s l s') :
    countedIn i s'.run.audit ≤ max 1 n := by
  cases h with
  | refuse _ hrefusal => simpa [countedIn_of_refusal hrefusal] using hle
  | skip _ => simpa using hle
  | @record a todo results extra r hatt =>
    obtain ⟨hid, hzero⟩ := (hs.attempt _ hatt).fits a todo rfl
    rw [audit_withAudit, countedIn_recordOutcome]
    by_cases hi : r.actionId = i
    · rw [hzero (hid.symm.trans hi), Nat.zero_add]
      exact le_trans (Bool.toNat_le _) (le_max_left ..)
    · rwa [beq_false_of_ne hi, Bool.and_false, Bool.toNat_false, Nat.add_zero]
  | start | crash | finish | letThrough | queryYes | queryNo | execute | read => exact hle

/-- The calls of one action. -/
def callsOf (i : String) (calls : List (Call σ)) : List (Call σ) :=
  calls.filter fun c => c.action.actionId == i

/-- An action that the log counts as executed is not called again. -/
theorem callsOf_of_moves {s s' : NodeState σ} {l : NodeStep} (hs : s.Sound state i)
    (hcounted : 0 < countedIn i s.run.audit) (h : Moves state s l s') :
    callsOf i s'.run.calls = callsOf i s.run.calls := by
  cases h with
  | @execute a todo results extra r world hatt hid =>
    have hne : a.actionId ≠ i := fun hi =>
      hcounted.ne' ((hs.attempt _ hatt).fits a todo rfl hi)
    simp [callsOf, hne]
  | start | crash | finish | refuse | letThrough | queryYes | queryNo | record | skip | read => rfl

end invariant

/-! ### Whole runs -/

/-- The tool runs of an action against the log and the crashes of a run: each success beyond the first
    was forgotten in a crash between the tool and the append. -/
structure CrashAccount (i : String) (log : AuditLog) (lost : List String) (s : NodeState σ) : Prop where
  balance : successesFor i s.run.calls + countedIn i log =
    countedIn i s.run.audit + (lost ++ unrecorded s).count i
  once : countedIn i s.run.audit ≤ max 1 (countedIn i log)
  bound : log.hasExecuted i = false → successesFor i s.run.calls ≤ 1 + lost.count i
  acknowledged : ∀ rs ∈ s.returned, ∀ r ∈ rs, r.ok = true → r.actionId = i →
    s.run.audit.hasExecuted i = true

/-- The process before its first attempt. -/
def downState (audit : AuditLog) (world : σ) : NodeState σ := { run := { audit := audit, world := world } }

section runs
variable {reg : ToolRegistry σ} {state : AgentState} {i : String}

theorem sound_downState (audit : AuditLog) (world : σ) : (downState audit world).Sound state i :=
  ⟨by simp [downState], by simp [downState]⟩

/-- A success that waits for its event is the first one the log is to count. -/
theorem countedIn_add_unrecorded_le {s : NodeState σ} (hs : s.Sound state i)
    (honce : countedIn i s.run.audit ≤ 1) : countedIn i s.run.audit + (unrecorded s).count i ≤ 1 := by
  rw [unrecorded]
  split
  next a todo extra r results hatt =>
    obtain ⟨hid, hzero⟩ := (hs.attempt _ hatt).fits a todo rfl
    by_cases hi : r.actionId = i
    · rw [hzero (hid.symm.trans hi)]
      split <;> simp [hi]
    · split <;> simp [hi, honce]
  next => simpa using honce

/-- However often the executor node dies and is run again over its checkpoint, a gated action's tool
    succeeds once, and once more for every crash between the tool and the append; what an attempt
    returned as a success is in the log, and what is in the log is not run again. -/
theorem crashes_account (hgated : ∀ a ∈ state.proposedActions, a.actionId = i → a.needsApproval = true)
    (audit : AuditLog) (world : σ) (ls : List NodeStep) (s : NodeState σ)
    (hrun : exec (nodeStep reg state) (downState audit world) ls = some s) :
    CrashAccount i audit (outputs (nodeStep reg state) forgets (downState audit world) ls) s ∧
    ∀ ms s', exec (nodeStep reg state) s ms = some s' → s.run.audit.hasExecuted i = true →
      callsOf i s'.run.calls = callsOf i s.run.calls := by
  have hstep : ∀ s l s', s.Sound state i → nodeStep reg state s l = some s' → s'.Sound state i :=
    fun _ _ _ hs h => sound_of_moves hgated hs (moves_of_nodeStep h)
  have hsound : s.Sound state i := invariant_of_exec hstep (sound_downState audit world) hrun
  have honce : countedIn i s.run.audit ≤ max 1 (countedIn i audit) := by
    have hkeep : ∀ s l s', s.Sound state i ∧ countedIn i s.run.audit ≤ max 1 (countedIn i audit) →
        nodeStep reg state s l = some s' →
        s'.Sound state i ∧ countedIn i s'.run.audit ≤ max 1 (countedIn i audit) := by
      rintro s l s' ⟨hs, hle⟩ h
      exact ⟨hstep s l s' hs h, countedIn_le_of_moves hs hle (moves_of_nodeStep h)⟩
    exact (invariant_of_exec hkeep ⟨sound_downState audit world, le_max_right ..⟩ hrun).2
  have hbalance : Balanced i (countedIn i audit)
      (outputs (nodeStep reg state) forgets (downState audit world) ls) s := by
    have hstart : Balanced i (countedIn i audit) [] (downState audit world : NodeState σ) := by
      simp [Balanced, downState, successesFor, unrecorded]
    exact invariant_of_outputs (fun lost s l s' hb h => balanced_of_moves hb (moves_of_nodeStep h)) hstart hrun
  refine ⟨⟨hbalance, honce, fun hfresh => ?_, fun rs hrs r hr hok hid => ?_⟩, ?_⟩
  · rw [hasExecuted_eq_false_iff] at hfresh
    rw [hfresh] at honce
    have hle := countedIn_add_unrecorded_le hsound honce
    rw [Balanced, hfresh, List.count_append] at hbalance
    omega
  · exact hasExecuted_iff_countedIn.mpr (hsound.returned rs hrs r hr hok hid)
  · intro ms s' hrest hcounted
    rw [hasExecuted_iff_countedIn] at hcounted
    have hkeep : ∀ t l t', t.Sound state i ∧ 0 < countedIn i t.run.audit ∧
        callsOf i t.run.calls = callsOf i s.run.calls → nodeStep reg state t l = some t' →
        t'.Sound state i ∧ 0 < countedIn i t'.run.audit ∧ callsOf i t'.run.calls = callsOf i s.run.calls := by
      rintro t l t' ⟨ht, hpos, hsame⟩ h
      have hmoves := moves_of_nodeStep h
      exact ⟨hstep t l t' ht h, lt_of_lt_of_le hpos (countedIn_mono hmoves),
        (callsOf_of_moves ht hpos hmoves).trans hsame⟩
    exact (invariant_of_exec hkeep ⟨hsound, hcounted, rfl⟩ hrest).2.2

end runs

/-! ### A crash in the window -/

/-- An admin's approved count, checkpointed. -/
def approvedCount : AgentState where
  principal := some { userId := "alice", roles := ["admin"] }
  proposedActions := [countingAction "a1" .send]
  approvedActionIds := ["a1"]

/-- The process dies after the tool run, and the next attempt is left alone. -/
def crashedInWindow : List NodeStep :=
  [.start, .gates DEFAULT_POLICY, .query, .execute, .crash,
    .start, .gates DEFAULT_POLICY, .query, .execute, .append, .finish]

-- the message goes out twice, and the log shows it once
example : (exec (nodeStep (countingRegistry .send) approvedCount) (downState freshLog 0)
    crashedInWindow).map (fun s => (s.run.world, countedIn "a1" s.run.audit)) = some (2, 1) := by decide

theorem gated_approvedCount :
    ∀ a ∈ approvedCount.proposedActions, a.actionId = "a1" → a.needsApproval = true := by
  simp [approvedCount, countingAction, ProposedAction.needsApproval, RiskTier.isAutoSafe]

theorem crashes_account_inWindow : ∃ s lost,
    exec (nodeStep (countingRegistry .send) approvedCount) (downState freshLog 0) crashedInWindow = some s ∧
      CrashAccount "a1" freshLog lost s := by
  have hruns : (exec (nodeStep (countingRegistry .send) approvedCount) (downState freshLog 0)
      crashedInWindow).isSome = true := by decide
  obtain ⟨s, hs⟩ := Option.isSome_iff_exists.mp hruns
  exact ⟨s, _, hs, (crashes_account gated_approvedCount freshLog 0 crashedInWindow s hs).1⟩

end Atlas
