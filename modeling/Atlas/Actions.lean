import Atlas.Json

/-! Action contracts and the approval policy: the risk tier a tool declares, the fail-closed rule that
    gates everything but a known-safe read, and the records that travel through the graph. -/

namespace Atlas

/-- How dangerous an action is. Declared by tools. -/
inductive RiskTier where | read | write | send | delete | pay
  deriving DecidableEq, Repr

namespace RiskTier

def value : RiskTier → String
  | read => "read"
  | write => "write"
  | send => "send"
  | delete => "delete"
  | pay => "pay"

def all : List RiskTier := [read, write, send, delete, pay]

/-- `RiskTier(s)`: the member with that value, if any. -/
def ofValue? (s : String) : Option RiskTier := all.find? (·.value == s)

/-- Only pure reads are safe to run without a human in the loop. -/
def isAutoSafe (t : RiskTier) : Bool := t == read

end RiskTier

/-- The single source of truth for what may run without approval. -/
def autoApprovedTiers : List RiskTier := [.read]

/-- What `requires_approval` may be handed: a tier, a bare string, or anything else. -/
inductive TierArg where
  | tier (t : RiskTier)
  | text (s : String)
  | other

/-- Fail-closed: a missing or unrecognised tier always requires approval. -/
def requiresApproval : TierArg → Bool
  | .tier t => !autoApprovedTiers.contains t
  | .text s =>
    match RiskTier.ofValue? s with
    | some t => !autoApprovedTiers.contains t
    | none => true
  | .other => true

@[simp] theorem requiresApproval_tier (t : RiskTier) :
    requiresApproval (.tier t) = !t.isAutoSafe := by
  cases t <;> rfl

/-- Tool arguments: the entries of a keyword mapping. -/
abbrev Args := List (String × Json)

/-- An action the planner wants to take. -/
structure ProposedAction where
  actionId : String
  tool : String
  args : Args
  riskTier : RiskTier
  rationale : String := ""
  requiredPermission : Option String := none

def ProposedAction.needsApproval (a : ProposedAction) : Bool := requiresApproval (.tier a.riskTier)

/-- A human's decision about exactly one action. -/
structure ApprovalDecision where
  actionId : String
  approved : Bool
  decidedBy : String := "human"
  deriving DecidableEq, Repr

/-- The outcome of attempting to execute an action. -/
structure ActionResult where
  actionId : String
  tool : String
  ok : Bool
  output : Json := .null
  error : Option String := none

end Atlas
