import Atlas.Tools

/-! Guarded execution: idempotency for gated actions, keyed on a durable `EXECUTED` event. The run
    state threads the audit log and the world, and keeps (for the proofs) every call that reached
    `registry.execute`, with the world it found. -/

namespace Atlas

/-- One call of `registry.execute`. -/
structure Call (σ : Type) where
  action : ProposedAction
  principal : Principal
  world : σ
  result : ActionResult

structure RunState (σ : Type) where
  audit : AuditLog
  world : σ
  calls : List (Call σ) := []

variable {σ : Type}

/-- The state after writing to the audit log only. -/
def RunState.withAudit (st : RunState σ) (audit : AuditLog) : RunState σ := { st with audit := audit }

@[simp] theorem audit_withAudit (st : RunState σ) (audit : AuditLog) :
    (st.withAudit audit).audit = audit := rfl

@[simp] theorem calls_withAudit (st : RunState σ) (audit : AuditLog) :
    (st.withAudit audit).calls = st.calls := rfl

@[simp] theorem world_withAudit (st : RunState σ) (audit : AuditLog) :
    (st.withAudit audit).world = st.world := rfl

/-- `_replay_result`: a synthetic success that carries the detail of the last counted event. -/
def replayResult (action : ProposedAction) (audit : AuditLog) : ActionResult where
  actionId := action.actionId
  tool := action.tool
  ok := true
  output :=
    match audit.events.reverse.find? (fun e => countsAsExecuted e && e.actionId == action.actionId) with
    | some event => .obj [("replay_skipped", .bool true), ("prior", .obj event.detail)]
    | none => .obj [("replay_skipped", .bool true)]

/-- The idempotency check: a gated action that already executed is not run again. -/
def alreadyExecuted (action : ProposedAction) (audit : AuditLog) : Bool :=
  requiresApproval (.tier action.riskTier) && audit.hasExecuted action.actionId

/-- `audit.executed` or `audit.failed`, by the result. -/
def recordOutcome (audit : AuditLog) (result : ActionResult) (extra : Option AuditToolContext) : AuditLog :=
  if ok : result.ok = true then audit.executed result ok extra else audit.failed result extra

/-- `GuardedExecutor.execute_guarded`. -/
def executeGuarded (reg : ToolRegistry σ) (action : ProposedAction) (principal : Principal)
    (extra : Option AuditToolContext) (st : RunState σ) : ActionResult × RunState σ :=
  if alreadyExecuted action st.audit then
    let audit := st.audit.replaySkipped action "already executed" extra
    (replayResult action audit, st.withAudit audit)
  else
    let (result, world) := reg.execute action principal st.world
    (result, {
      audit := recordOutcome st.audit result extra
      world := world
      calls := st.calls ++ [⟨action, principal, st.world, result⟩] })

theorem hasExecuted_recordOutcome (audit : AuditLog) (r : ActionResult) (extra) (i : String) :
    (recordOutcome audit r extra).hasExecuted i =
      (audit.hasExecuted i || (r.ok && r.actionId == i)) := by
  rw [recordOutcome]
  split
  next ok => rw [AuditLog.hasExecuted_executed, ok, Bool.true_and]
  next ok => rw [AuditLog.hasExecuted_failed]; simp [ok]

/-- Executing one action never changes what the query says about another. -/
theorem hasExecuted_executeGuarded_ne {reg : ToolRegistry σ} {a : ProposedAction} {p : Principal} {extra}
    {st : RunState σ} {i : String} (h : a.actionId ≠ i) :
    (executeGuarded reg a p extra st).2.audit.hasExecuted i = st.audit.hasExecuted i := by
  rw [executeGuarded]
  split
  · simp
  · simp [hasExecuted_recordOutcome, h]

/-- The query never goes back from yes to no. -/
theorem hasExecuted_executeGuarded_mono {reg : ToolRegistry σ} {a : ProposedAction} {p : Principal}
    {extra} {st : RunState σ} {i : String} (h : st.audit.hasExecuted i = true) :
    (executeGuarded reg a p extra st).2.audit.hasExecuted i = true := by
  rw [executeGuarded]
  split
  · simpa using h
  · simp [hasExecuted_recordOutcome, h]

/-- The calls after one guarded execution: none new on a replay, exactly one otherwise. -/
theorem calls_executeGuarded (reg : ToolRegistry σ) (a : ProposedAction) (p : Principal) (extra)
    (st : RunState σ) :
    (executeGuarded reg a p extra st).2.calls =
      st.calls ++ if alreadyExecuted a st.audit then []
        else [⟨a, p, st.world, (reg.execute a p st.world).1⟩] := by
  rw [executeGuarded]
  split <;> simp

end Atlas
