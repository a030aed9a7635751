import Atlas.Lib.Dict
import Atlas.Actions

/-! The audit log as its callers use it: typed events, one recorder per kind of event, and the
    idempotency query `has_executed`. Identity and time of an event come from outside, so a log carries
    the supply of stamps its future events will receive. The hash chain the records are stored in is
    `Atlas.Governance.Chain`. -/

namespace Atlas

inductive AuditEventType where
  | proposed | approved | rejected | executed | replaySkipped | failed | skipped | denied | ingested
  deriving DecidableEq, Repr

def AuditEventType.value : AuditEventType → String
  | proposed => "proposed"
  | approved => "approved"
  | rejected => "rejected"
  | executed => "executed"
  | replaySkipped => "replay_skipped"
  | failed => "failed"
  | skipped => "skipped"
  | denied => "denied"
  | ingested => "ingested"

/-- A UTC timestamp of microsecond precision. -/
structure DateTime where
  year : ℕ
  month : ℕ
  day : ℕ
  hour : ℕ
  minute : ℕ
  second : ℕ
  microsecond : ℕ
  deriving DecidableEq, Repr

/-- Decimal digits of `n`, padded with zeros to `width`. -/
def padNat (width n : ℕ) : String :=
  String.ofList (List.replicate (width - n.repr.length) '0') ++ n.repr

/-- The ISO-8601 form a UTC timestamp takes in a JSON dump. -/
def DateTime.isoformat (t : DateTime) : String :=
  padNat 4 t.year ++ "-" ++ padNat 2 t.month ++ "-" ++ padNat 2 t.day ++ "T" ++
    padNat 2 t.hour ++ ":" ++ padNat 2 t.minute ++ ":" ++ padNat 2 t.second ++
    (if t.microsecond = 0 then "" else "." ++ padNat 6 t.microsecond) ++ "Z"

/-- Allowlisted, non-secret tool context folded into executor audit events. -/
structure AuditToolContext where
  toolSchema : Option String := none
  schemaVersion : Option String := none
  destinationHost : Option String := none
  provider : Option String := none
  principal : Option String := none
  deriving DecidableEq, Repr

/-- `model_dump(exclude_none=True, by_alias=True)`. -/
def AuditToolContext.dump (c : AuditToolContext) : Args :=
  [("schema", c.toolSchema), ("schema_version", c.schemaVersion),
    ("destination_host", c.destinationHost), ("provider", c.provider),
    ("principal", c.principal)].filterMap (fun f => f.2.map (fun v => (f.1, Json.str v)))

/-- `_merge_detail`: the context never overrides a base key. -/
def mergeDetail (base : Args) : Option AuditToolContext → Args
  | none => base
  | some extra => Dict.mergeEntries extra.dump base

/-- One immutable entry in the audit trail. -/
structure AuditEvent where
  eventId : String
  timestamp : DateTime
  eventType : AuditEventType
  actionId : String
  tool : Option String := none
  actor : String := "system"
  detail : Args := []

/-- What an event receives when it is created: a fresh id and the current time. -/
structure Stamp where
  eventId : String
  timestamp : DateTime

/-- An append-only log: the events so far, and the stamps of the events to come. -/
structure AuditLog where
  events : List AuditEvent := []
  stamps : ℕ → Stamp

/-- `_counts_as_executed`: only a successful `EXECUTED` event counts. -/
def countsAsExecuted (event : AuditEvent) : Bool :=
  if event.eventType = .executed then
    match event.detail.lookup "ok" with
    | none => true
    | some v => v.isTrue
  else false

/-- A log without events, whose events to come all carry one stamp. -/
def freshLog : AuditLog := { stamps := fun _ => ⟨"e", ⟨2026, 1, 1, 0, 0, 0, 0⟩⟩ }

namespace AuditLog

/-- True when a successful `EXECUTED` event exists for the action. -/
def hasExecuted (log : AuditLog) (actionId : String) : Bool :=
  log.events.any (fun e => countsAsExecuted e && e.actionId == actionId)

/-- `record`: stamp an event and append it. -/
def record (log : AuditLog) (eventType : AuditEventType) (actionId : String) (tool : Option String)
    (actor : String) (detail : Args) : AuditLog :=
  let stamp := log.stamps log.events.length
  { log with events := log.events ++
      [⟨stamp.eventId, stamp.timestamp, eventType, actionId, tool, actor, detail⟩] }

/-! ### Recorders -/

def proposed (log : AuditLog) (a : ProposedAction) : AuditLog :=
  log.record .proposed a.actionId (some a.tool) "system"
    [("risk_tier", .str a.riskTier.value), ("args", .obj a.args)]

def decided (log : AuditLog) (d : ApprovalDecision) : AuditLog :=
  log.record (if d.approved then .approved else .rejected) d.actionId none d.decidedBy []

/-- The outcome part of an execution event. -/
def outcomeDetail (r : ActionResult) : Args :=
  [("ok", .bool r.ok), ("error", (r.error.map Json.str).getD .null)]

/-- Success-only: the source raises on a failed result, here the caller shows that it is none. -/
def executed (log : AuditLog) (r : ActionResult) (_ok : r.ok = true)
    (extra : Option AuditToolContext) : AuditLog :=
  log.record .executed r.actionId (some r.tool) "system" (mergeDetail (outcomeDetail r) extra)

def failed (log : AuditLog) (r : ActionResult) (extra : Option AuditToolContext) : AuditLog :=
  log.record .failed r.actionId (some r.tool) "system" (mergeDetail (outcomeDetail r) extra)

def replaySkipped (log : AuditLog) (a : ProposedAction) (reason : String)
    (extra : Option AuditToolContext) : AuditLog :=
  log.record .replaySkipped a.actionId (some a.tool) "system" (mergeDetail [("reason", .str reason)] extra)

def skipped (log : AuditLog) (a : ProposedAction) (reason : String)
    (extra : Option AuditToolContext) : AuditLog :=
  log.record .skipped a.actionId (some a.tool) "system" (mergeDetail [("reason", .str reason)] extra)

def denied (log : AuditLog) (a : ProposedAction) (principalId reason : String)
    (extra : Option AuditToolContext) : AuditLog :=
  log.record .denied a.actionId (some a.tool) principalId (mergeDetail [("reason", .str reason)] extra)

/-- The extraction counts are omitted when extraction is disabled. -/
def ingested (log : AuditLog) (sourceId scope : String) (entityCount : ℕ) (actor : String)
    (extractedEntityCount relationCount : Option ℕ) : AuditLog :=
  log.record .ingested sourceId none actor
    ([("scope", .str scope), ("entity_count", .int entityCount)] ++
      (extractedEntityCount.map (fun n => ("extracted_entity_count", Json.int n))).toList ++
      (relationCount.map (fun n => ("relation_count", Json.int n))).toList)

/-! ### What recording does to the idempotency query -/

theorem hasExecuted_append (es : List AuditEvent) (e : AuditEvent) (stamps : ℕ → Stamp) (i : String) :
    hasExecuted ⟨es ++ [e], stamps⟩ i =
      (hasExecuted ⟨es, stamps⟩ i || (countsAsExecuted e && e.actionId == i)) := by
  simp only [hasExecuted, List.any_append, List.any_cons, List.any_nil, Bool.or_false]

/-- Only an `EXECUTED` event for the action itself can change the answer. -/
theorem hasExecuted_record (log : AuditLog) (t : AuditEventType) (j : String) (tool actor d) (i : String)
    (h : t ≠ .executed ∨ j ≠ i) : (log.record t j tool actor d).hasExecuted i = log.hasExecuted i := by
  rw [record, hasExecuted_append]
  rcases h with h | h
  · simp [countsAsExecuted, h]
  · simp [h]

@[simp] theorem hasExecuted_denied (log : AuditLog) (a who reason extra) (i : String) :
    (log.denied a who reason extra).hasExecuted i = log.hasExecuted i :=
  hasExecuted_record _ _ _ _ _ _ _ (Or.inl (by decide))

@[simp] theorem hasExecuted_skipped (log : AuditLog) (a reason extra) (i : String) :
    (log.skipped a reason extra).hasExecuted i = log.hasExecuted i :=
  hasExecuted_record _ _ _ _ _ _ _ (Or.inl (by decide))

@[simp] theorem hasExecuted_replaySkipped (log : AuditLog) (a reason extra) (i : String) :
    (log.replaySkipped a reason extra).hasExecuted i = log.hasExecuted i :=
  hasExecuted_record _ _ _ _ _ _ _ (Or.inl (by decide))

@[simp] theorem hasExecuted_failed (log : AuditLog) (r extra) (i : String) :
    (log.failed r extra).hasExecuted i = log.hasExecuted i :=
  hasExecuted_record _ _ _ _ _ _ _ (Or.inl (by decide))

@[simp] theorem hasExecuted_decided (log : AuditLog) (d : ApprovalDecision) (i : String) :
    (log.decided d).hasExecuted i = log.hasExecuted i :=
  hasExecuted_record _ _ _ _ _ _ _ (Or.inl (by cases d.approved <;> decide))

/-- The outcome an execution event records is the one the query reads, whatever the context adds. -/
theorem lookup_ok_mergeDetail (r : ActionResult) (extra : Option AuditToolContext) :
    (mergeDetail (outcomeDetail r) extra).lookup "ok" = some (.bool r.ok) := by
  have hbase : (outcomeDetail r).lookup "ok" = some (.bool r.ok) := rfl
  cases extra with
  | none => exact hbase
  | some c => rw [mergeDetail, Dict.lookup_mergeEntries, hbase, Option.some_or]

/-- After a recorded success, the query answers yes for that action. -/
@[simp] theorem hasExecuted_executed (log : AuditLog) (r : ActionResult) (ok : r.ok = true) (extra)
    (i : String) :
    (log.executed r ok extra).hasExecuted i = (log.hasExecuted i || r.actionId == i) := by
  rw [executed, record, hasExecuted_append]
  simp [countsAsExecuted, lookup_ok_mergeDetail, ok, Json.isTrue]

end AuditLog

end Atlas
