import Atlas.Governance.Audit
import Atlas.Governance.Rbac

/-! The tool contract and the registry. A tool declares its own risk tier, argument schema and
    permission; the registry turns "call tool X with args Y" into a risk-tagged action (`propose`) and
    runs one (`execute`). `σ` is the state of the world a tool run may change: providers, databases,
    clocks. A validated argument model is represented by its dump, the mapping of its fields. -/

namespace Atlas

/-- A declared field of an argument model; the length bounds are those of a string. -/
structure FieldDef where
  name : String
  type : String := "str"
  required : Bool := true
  minLength : Option ℕ := none
  maxLength : Option ℕ := none
  deriving DecidableEq, Repr

/-- A string against the length bounds of its field. -/
def FieldDef.checkLength (field : FieldDef) (s : String) : Except String Json :=
  if s.length < field.minLength.getD 0 then .error "string_too_short"
  else if field.maxLength.any (· < s.length) then .error "string_too_long"
  else .ok (.str s)

/-- The value of a mapping at a field, if any, against the declaration. `coerce` reads the types other than
    strings; an error is the type the validator gives it. -/
def FieldDef.validate (coerce : String → Json → Except String Json) (field : FieldDef) :
    Option Json → Except String Json
  | none => if field.required then .error "missing" else .ok .null
  | some v =>
    match v, field.required, field.type with
    | .null, false, _ => .ok .null
    | .str s, _, "str" => field.checkLength s
    | _, _, "str" => .error "string_type"
    | v, _, type => coerce type v

/-- `Model.model_validate(args)` and its dump: the declared fields in their order, other keys ignored. Of
    the problems reported the first is kept. -/
def modelValidate (coerce : String → Json → Except String Json) (title : String)
    (fields : List FieldDef) (args : Args) : Except PyError Args :=
  let validateField (field : FieldDef) : Except String (String × Json) :=
    (field.validate coerce (Json.field? field.name args)).map fun v => (field.name, v)
  (fields.mapM validateField).mapError fun problem => ⟨"ValidationError", title ++ ": " ++ problem⟩

/-- The same of a model whose fields have validators of their own: `after` runs on what passed the
    declaration of its field, and may rewrite it. -/
def modelValidateAfter (coerce : String → Json → Except String Json)
    (after : String → Json → Except String Json) (title : String) (fields : List FieldDef) (args : Args) :
    Except PyError Args :=
  let validateField (field : FieldDef) : Except String (String × Json) :=
    ((field.validate coerce (Json.field? field.name args)).bind (after field.name)).map
      fun v => (field.name, v)
  (fields.mapM validateField).mapError fun problem => ⟨"ValidationError", title ++ ": " ++ problem⟩

/-- What `audit_metadata()` may surface. -/
structure ToolMetadata where
  schema : Option String := none
  schemaVersion : Option String := none
  destinationHost : Option String := none
  provider : Option String := none

/-- The contract every tool satisfies. -/
structure BaseTool (σ : Type) where
  name : String
  riskTier : RiskTier
  /-- `ArgsSchema.model_validate`: the validated arguments, or a validation error. -/
  argsSchema : Args → Except PyError Args
  requiredPermission : Option String := none
  resourcePermission : Args → Except PyError (Option String) := fun _ => .ok none
  run : Args → Principal → σ → Except PyError Json × σ
  auditMetadata : ToolMetadata := {}

/-- Append an optional resource segment to a tool's base permission. -/
def combinePermission : Option String → Option String → Option String
  | some base, some resource => some (base ++ ":" ++ resource)
  | base, _ => base

namespace BaseTool
variable {σ : Type}

/-- The full permission for validated arguments: base plus optional resource segment. -/
def permissionFor (tool : BaseTool σ) (args : Args) : Except PyError (Option String) :=
  (tool.resourcePermission args).map (combinePermission tool.requiredPermission)

/-- `AuditToolContext(**tool.audit_metadata(), principal=...)`. -/
def auditContext (tool : BaseTool σ) (principal : Principal) : AuditToolContext where
  toolSchema := tool.auditMetadata.schema
  schemaVersion := tool.auditMetadata.schemaVersion
  destinationHost := tool.auditMetadata.destinationHost
  provider := tool.auditMetadata.provider
  principal := some principal.userId

end BaseTool

/-- The available tools by name; each is filed under its own name. -/
structure ToolRegistry (σ : Type) where
  tools : Dict String (BaseTool σ)
  named : ∀ {n t}, tools.get? n = some t → t.name = n

namespace ToolRegistry
variable {σ : Type}

def empty : ToolRegistry σ := ⟨Dict.empty, fun h => by simp at h⟩

/-- `register`: a second tool of one name needs `replace`. -/
def register (reg : ToolRegistry σ) (tool : BaseTool σ) (replace : Bool := false) :
    Except PyError (ToolRegistry σ) :=
  if (reg.tools.get? tool.name).isSome && !replace then
    .error ⟨"ValueError", "tool already registered: " ++ tool.name⟩
  else
    .ok {
      tools := reg.tools.set tool.name tool
      named := fun {n t} h => by
        rw [Dict.get?_set] at h
        split at h
        next hn => cases h; exact hn.symm
        next => exact reg.named h }

/-- `get`: an unknown name is a `KeyError`. -/
def get (reg : ToolRegistry σ) (name : String) : Except PyError (BaseTool σ) :=
  match reg.tools.get? name with
  | some tool => .ok tool
  | none => .error ⟨"KeyError", Text.reprStr ("unknown tool: " ++ name)⟩

/-- Build a risk-tagged action. `actionId` is the fresh id the action receives. -/
def propose (reg : ToolRegistry σ) (actionId toolName : String) (args : Args) (rationale : String := "") :
    Except PyError ProposedAction := do
  let tool ← reg.get toolName
  let validated ← tool.argsSchema args
  let permission ← tool.permissionFor validated
  return {
    actionId := actionId
    tool := tool.name
    args := validated
    riskTier := tool.riskTier
    rationale := rationale
    requiredPermission := permission }

/-- The tool and the validated arguments an action stands for right now. -/
def resolve (reg : ToolRegistry σ) (action : ProposedAction) : Except PyError (BaseTool σ × Args) := do
  let tool ← reg.get action.tool
  let args ← tool.argsSchema action.args
  return (tool, args)

/-- A result that reports an exception as `Type: text`. -/
def errorResult (action : ProposedAction) (e : PyError) : ActionResult where
  actionId := action.actionId
  tool := action.tool
  ok := false
  error := some (e.type ++ ": " ++ e.message)

/-- Run a single action; every failure is captured in the result. -/
def execute (reg : ToolRegistry σ) (action : ProposedAction) (principal : Principal) (world : σ) :
    ActionResult × σ :=
  match reg.resolve action with
  | .error e => (errorResult action e, world)
  | .ok (tool, args) =>
    match tool.run args principal world with
    | (.ok output, world') =>
      ({ actionId := action.actionId, tool := action.tool, ok := true, output := output }, world')
    | (.error e, world') => (errorResult action e, world')

@[simp] theorem actionId_execute (reg : ToolRegistry σ) (a : ProposedAction) (p : Principal) (w : σ) :
    (reg.execute a p w).1.actionId = a.actionId := by
  rw [execute]
  split
  · rfl
  · split <;> rfl

theorem get_eq_ok_iff {reg : ToolRegistry σ} {n : String} {tool : BaseTool σ} :
    reg.get n = .ok tool ↔ reg.tools.get? n = some tool := by
  rw [get]
  split
  next t h => rw [h]; simp
  next h => rw [h]; simp

/-- What `propose` stamps: the tool's own tier, its validated arguments and their permission. -/
theorem propose_eq_ok {reg : ToolRegistry σ} {i n : String} {args : Args} {why : String}
    {a : ProposedAction} (h : reg.propose i n args why = .ok a) :
    ∃ tool, reg.get n = .ok tool ∧ a.actionId = i ∧ a.tool = n ∧ a.riskTier = tool.riskTier ∧
      tool.argsSchema args = .ok a.args ∧ tool.permissionFor a.args = .ok a.requiredPermission := by
  simp only [propose, Fallible.bind_eq_ok, Fallible.pure_eq_ok] at h
  obtain ⟨tool, hg, validated, hv, permission, hp, rfl⟩ := h
  exact ⟨tool, hg, rfl, reg.named (get_eq_ok_iff.mp hg), rfl, hv, hp⟩

/-- What an action stands for: its registered tool and its validated arguments. -/
theorem resolve_eq_ok {reg : ToolRegistry σ} {a : ProposedAction} {tool : BaseTool σ} {args : Args} :
    reg.resolve a = .ok (tool, args) ↔
      reg.get a.tool = .ok tool ∧ tool.argsSchema a.args = .ok args := by
  simp only [resolve, Fallible.bind_eq_ok, Fallible.pure_eq_ok, Prod.mk.injEq]
  constructor
  · rintro ⟨t, hg, v, hv, rfl, rfl⟩; exact ⟨hg, hv⟩
  · rintro ⟨hg, hv⟩; exact ⟨tool, hg, args, hv, rfl, rfl⟩

end ToolRegistry

/-! ### The smallest tool with a side effect -/

/-- A tool of a given tier whose world counts its runs. -/
def countingTool (tier : RiskTier) : BaseTool ℕ where
  name := "count"
  riskTier := tier
  argsSchema := .ok
  requiredPermission := some "tool:count"
  run := fun _ _ n => (.ok (.int n), n + 1)

/-- A registry that holds the counting tool only. -/
def countingRegistry (tier : RiskTier) : ToolRegistry ℕ where
  tools := ⟨[("count", countingTool tier)], by simp⟩
  named := fun {n t} h => by
    obtain ⟨rfl, rfl⟩ : n = "count" ∧ t = countingTool tier := by
      simpa using Dict.get?_eq_some_iff.mp h
    rfl

/-- A call of the counting tool that carries the tier `stamped`. -/
def countingAction (actionId : String) (stamped : RiskTier) : ProposedAction where
  actionId := actionId
  tool := "count"
  args := []
  riskTier := stamped
  requiredPermission := some "tool:count"

end Atlas
