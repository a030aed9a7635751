import Atlas.Execution.Guarded
import Atlas.Knowledge.Interfaces

/-! The planner, approval and executor nodes and the routing between them. A node reads the state's
    channels and returns the state with its own channels overwritten. The policy is runtime-editable,
    so a node that checks several actions is handed the policy each check finds: `policy i` is the
    store as the check of the `i`-th action reads it. -/

namespace Atlas

structure Message where
  type : String
  text : String

/-- The channels of one agent thread that these nodes read or write. -/
structure AgentState where
  messages : List Message := []
  principal : Option Principal := none
  kgContext : List Entity := []
  proposedActions : List ProposedAction := []
  approvedActionIds : List String := []
  rejectedActionIds : List String := []
  actionResults : List ActionResult := []

/-- The request's principal, or the fail-closed anonymous one. -/
def getCurrentPrincipal (state : AgentState) : Principal := state.principal.getD Principal.anonymous

/-- The text of the last human message. -/
def lastUserText (messages : List Message) : String :=
  messages.foldl (fun text m => if m.type = "human" then m.text else text) ""

variable {σ : Type}

/-- A planning strategy: request, registry and retrieved knowledge to proposed actions. It may consult
    the world and may raise. -/
abbrev PlanFn (σ : Type) :=
  String → ToolRegistry σ → List Entity → σ → Except PyError (List ProposedAction) × σ

/-- Fail-closed resolution of the permission an action requires: derived from the arguments, and equal
    to the stamped one when there is one. -/
def requiredPermissionFor (action : ProposedAction) (tool : BaseTool σ) :
    Except PyError (Option String) := do
  let args ← tool.argsSchema action.args
  let derived ← tool.permissionFor args
  match action.requiredPermission with
  | some stamped =>
    if derived = some stamped then return derived
    else .error ⟨"ValueError", "stamped permission " ++ Text.reprStr stamped ++ " != args-derived " ++
      (derived.map Text.reprStr).getD "None"⟩
  | none => return derived

def missingPermission (required : Option String) : String :=
  "missing permission: " ++ required.getD "None"

/-- `registry.get` followed by `_required_permission_for`, as the planner's `try` block runs them. -/
def resolvePermission (reg : ToolRegistry σ) (action : ProposedAction) : Except PyError (Option String) := do
  let tool ← reg.get action.tool
  requiredPermissionFor action tool

/-! ### Planner -/

/-- One round of the planner's loop: the action if it may be surfaced, and the log. -/
def plannerAction (reg : ToolRegistry σ) (principal : Principal) (policy : PolicyStore)
    (action : ProposedAction) (audit : AuditLog) : Option ProposedAction × AuditLog :=
  let audit := audit.proposed action
  match resolvePermission reg action with
  | .error _ =>
    (none, audit.denied action principal.userId "could not resolve required permission" none)
  | .ok required =>
    if !policy.can (some principal) required then
      (none, audit.denied action principal.userId (missingPermission required) none)
    else (some action, audit)

def plannerLoop (reg : ToolRegistry σ) (principal : Principal) (policy : ℕ → PolicyStore) :
    ℕ → List ProposedAction → AuditLog → List ProposedAction × AuditLog
  | _, [], audit => ([], audit)
  | i, action :: proposed, audit =>
    let (kept, audit) := plannerAction reg principal (policy i) action audit
    let (authorized, audit) := plannerLoop reg principal policy (i + 1) proposed audit
    (kept.toList ++ authorized, audit)

/-- `planner_node`: retrieve, plan, and surface what the principal may run. -/
def plannerNode (planFn : PlanFn σ) (reg : ToolRegistry σ) (knowledge : KnowledgeGraph)
    (policy : ℕ → PolicyStore) (state : AgentState) (st : RunState σ) :
    Except PyError (AgentState × RunState σ) := do
  let principal := getCurrentPrincipal state
  let request := lastUserText state.messages
  let kgContext ← knowledge.query (some principal) request 5
  match planFn request reg kgContext st.world with
  | (.error e, _) => .error e
  | (.ok proposed, world) =>
    let (authorized, audit) := plannerLoop reg principal policy 0 proposed st.audit
    .ok ({ state with proposedActions := authorized, kgContext := kgContext },
      { st with audit := audit, world := world })

/-! ### Routing -/

inductive Route where | approval | executor | responder
  deriving DecidableEq, Repr

def routeAfterPlanner (state : AgentState) : Route :=
  if state.proposedActions.any (·.needsApproval) then .approval
  else if state.proposedActions.isEmpty then .responder
  else .executor

/-! ### Approval -/

/-- An iteration order for sets: any enumeration without repeats of the members. -/
structure SetOrder where
  enumerate : List String → List String
  perm : ∀ l, (enumerate l).Perm l.dedup

/-- One entry of a list-shaped payload. -/
def decisionOfItem (validIds : List String) : Json → Except PyError (List ApprovalDecision)
  | .obj item => do
    let id := (Json.field? "action_id" item).getD .null
    if (← id.memberOf validIds) then
      return [{
        actionId := id.pyStr
        approved := ((Json.field? "approved" item).getD (.bool false)).truthy
        decidedBy := ((Json.field? "decided_by" item).getD (.str "human")).pyStr }]
    else return []
  | _ => return []

/-- One id of an `approved_ids` or `rejected_ids` list. -/
def decisionOfId (validIds : List String) (approved : Bool) (aid : Json) :
    Except PyError (List ApprovalDecision) := do
  if (← aid.memberOf validIds) then return [{ actionId := aid.pyStr, approved := approved }]
  else return []

/-- Run a parser over all items and collect the decisions in order. -/
def collectDecisions (f : Json → Except PyError (List ApprovalDecision)) :
    List Json → Except PyError (List ApprovalDecision)
  | [] => .ok []
  | v :: vs => do
    let ds ← f v
    let rest ← collectDecisions f vs
    return ds ++ rest

/-- Does a mapping have the `approved_ids` / `rejected_ids` shape? -/
def listsShape (fields : List (String × Json)) : Bool :=
  (Json.field? "approved_ids" fields).isSome || (Json.field? "rejected_ids" fields).isSome

/-- The ids listed under one key, as decisions. -/
def decisionsOfField (validIds : List String) (key : String) (approved : Bool)
    (fields : List (String × Json)) : Except PyError (List ApprovalDecision) := do
  let ids ← ((Json.field? key fields).getD (.arr [])).iterate
  collectDecisions (decisionOfId validIds approved) ids

/-- Normalise a resume payload into decisions, keeping only known action ids. -/
def parseDecisions (order : SetOrder) (raw : Json) (validIds : List String) :
    Except PyError (List ApprovalDecision) :=
  match raw with
  | .bool b =>
    .ok ((order.enumerate validIds).map (fun aid => { actionId := aid, approved := b }))
  | .arr items => collectDecisions (decisionOfItem validIds) items
  | .obj fields =>
    if listsShape fields then do
      let yes ← decisionsOfField validIds "approved_ids" true fields
      let no ← decisionsOfField validIds "rejected_ids" false fields
      return yes ++ no
    else
      .ok ((fields.filter (fun f => validIds.contains f.1)).map
        (fun f => { actionId := f.1, approved := f.2.truthy }))
  | _ => .ok []

def gatedActions (state : AgentState) : List ProposedAction :=
  state.proposedActions.filter (·.needsApproval)

/-- `approval_node` once the human's payload `raw` has arrived. -/
def approvalNode (order : SetOrder) (raw : Json) (state : AgentState) (audit : AuditLog) :
    Except PyError (AgentState × AuditLog) := do
  let decisions ← parseDecisions order raw ((gatedActions state).map (·.actionId))
  return ({ state with
      approvedActionIds := (decisions.filter (·.approved)).map (·.actionId)
      rejectedActionIds := (decisions.filter (fun d => !d.approved)).map (·.actionId) },
    decisions.foldl AuditLog.decided audit)

/-! ### Executor -/

/-- One round of the executor's loop: the result, if the action was run or replayed. -/
def executorAction (reg : ToolRegistry σ) (principal : Principal) (approved : List String)
    (policy : PolicyStore) (action : ProposedAction) (st : RunState σ) :
    Option ActionResult × RunState σ :=
  match reg.get action.tool with
  | .error _ =>
    (none, st.withAudit (st.audit.denied action principal.userId "unknown tool"
      (some { principal := some principal.userId })))
  | .ok tool =>
    let context := some (tool.auditContext principal)
    match requiredPermissionFor action tool with
    | .error _ =>
      (none, st.withAudit (st.audit.denied action principal.userId
        "could not resolve required permission" context))
    | .ok required =>
      if !policy.can (some principal) required then
        (none, st.withAudit (st.audit.denied action principal.userId
          (missingPermission required) context))
      else if requiresApproval (.tier action.riskTier) && !approved.contains action.actionId then
        (none, st.withAudit (st.audit.skipped action "not approved" context))
      else
        let (result, st) := executeGuarded reg action principal context st
        (some result, st)

def executorLoop (reg : ToolRegistry σ) (principal : Principal) (approved : List String)
    (policy : ℕ → PolicyStore) : ℕ → List ProposedAction → RunState σ → List ActionResult × RunState σ
  | _, [], st => ([], st)
  | i, action :: proposed, st =>
    let (result, st) := executorAction reg principal approved (policy i) action st
    let (results, st) := executorLoop reg principal approved policy (i + 1) proposed st
    (result.toList ++ results, st)

/-- `executor_node`. -/
def executorNode (reg : ToolRegistry σ) (policy : ℕ → PolicyStore) (state : AgentState)
    (st : RunState σ) : AgentState × RunState σ :=
  let (results, st) := executorLoop reg (getCurrentPrincipal state) state.approvedActionIds policy 0
    state.proposedActions st
  ({ state with actionResults := results }, st)

end Atlas
