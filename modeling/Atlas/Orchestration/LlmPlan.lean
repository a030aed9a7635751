import Atlas.Orchestration.HeuristicPlan

/-! The planning strategy that asks a model. The prompt is built from the request and from the retrieved
    knowledge, so nothing is known about the answer: the model is a function of everything it is shown, and
    may return any calls, with any names and arguments. Each call goes through `propose`, which stamps the
    declared tier, and so does the offline strategy: nothing else is ever planned
    (`proposed_of_defaultPlanFn`). -/

namespace Atlas

open Text

variable {σ : Type}

/-! ### The prompt -/

/-- `_format_kg_context`. -/
def formatKgContext (entities : List Entity) : String :=
  if entities.isEmpty then ""
  else
    "Relevant context you may use (already access-filtered for this user):\n" ++
      "\n".intercalate (entities.map fun entity =>
        "- " ++ entity.name ++ ": " ++ takeChars 200 entity.content)

def PLANNER_SYSTEM_PROMPT : String :=
  "You are atlas, an enterprise agent. Decide which tools to call to satisfy the user. " ++
    "Only call tools that are necessary. Never attempt to bypass approval for sensitive actions."

/-- The system message of the planner. -/
def plannerSystem (context : List Entity) : String :=
  let contextBlock := formatKgContext context
  if contextBlock = "" then PLANNER_SYSTEM_PROMPT else PLANNER_SYSTEM_PROMPT ++ "\n\n" ++ contextBlock

/-- What a tool tells the model about itself. -/
structure ToolSpec where
  name : String
  description : String
  inputSchema : Json

/-- One entry of `tool_calls`, as the model wrote it. -/
structure ToolCall where
  name : Option String
  args : Option Args := none

/-- `call["name"]`. -/
def ToolCall.getName (call : ToolCall) : Except PyError String :=
  match call.name with
  | some name => .ok name
  | none => .error ⟨"KeyError", "'name'"⟩

/-- A chat model with tools bound to it: messages by role to the calls of its answer, if it has any. -/
abbrev ChatModel (σ : Type) :=
  List ToolSpec → List (String × String) → σ → Except PyError (Option (List ToolCall)) × σ

/-! ### The strategy -/

section plan
variable (model : ChatModel σ) (spec : String → BaseTool σ → ToolSpec) (freshId : ℕ → String)

/-- The specs of the registered tools, by the order of their names. -/
def toolSpecs (reg : ToolRegistry σ) : List ToolSpec :=
  (reg.names.mergeSort fun n m => decide (n ≤ m)).filterMap fun name =>
    (reg.tools.get? name).map (spec name)

/-- The loop over the calls; the `i`-th action receives the id `freshId i`. -/
def proposeCalls (reg : ToolRegistry σ) : ℕ → List ToolCall → Except PyError (List ProposedAction)
  | _, [] => .ok []
  | i, call :: calls => do
    let name ← call.getName
    let action ← reg.propose (freshId i) name (call.args.getD []) "LLM plan."
    let actions ← proposeCalls reg (i + 1) calls
    return action :: actions

/-- `llm_plan`. -/
def llmPlan : PlanFn σ := fun request reg context world =>
  match model (toolSpecs spec reg) [("system", plannerSystem context), ("human", request)] world with
  | (.error e, world) => (.error e, world)
  | (.ok calls, world) => (proposeCalls freshId reg 0 (calls.getD []), world)

/-- `default_plan_fn`: the model when there is a key, and the offline strategy otherwise. -/
def defaultPlanFn (word : WordChars) (low : Lowering) (hasAnthropicKey : Bool) : PlanFn σ :=
  if hasAnthropicKey then llmPlan model spec freshId
  else fun request reg _ world => (heuristicPlan word low freshId request reg, world)

end plan

/-! ### What a plan consists of -/

/-- Every action of the plan was made by `propose`. -/
def MadeByPropose (reg : ToolRegistry σ) (plan : List ProposedAction) : Prop :=
  ∀ a ∈ plan, ∃ i name args why, reg.propose i name args why = .ok a

theorem proposed_of_proposeCalls {freshId : ℕ → String} {reg : ToolRegistry σ} :
    ∀ {i : ℕ} {calls : List ToolCall} {plan : List ProposedAction},
    proposeCalls freshId reg i calls = .ok plan → MadeByPropose reg plan
  | _, [], plan, h => by
      cases h
      simp [MadeByPropose]
  | i, call :: calls, plan, h => by
      simp only [proposeCalls, Fallible.bind_eq_ok, Fallible.pure_eq_ok] at h
      obtain ⟨name, -, action, haction, rest, hrest, rfl⟩ := h
      intro a ha
      rcases List.mem_cons.mp ha with rfl | ha
      · exact ⟨_, _, _, _, haction⟩
      · exact proposed_of_proposeCalls hrest a ha

theorem proposed_of_proposeIf {low : Lowering} {request : String} {reg : ToolRegistry σ}
    {keywords : List String} {tool i : String} {args : Args} {why : String} {plan : List ProposedAction}
    (h : proposeIf low request reg keywords tool i args why = .ok plan) : MadeByPropose reg plan := by
  rw [proposeIf] at h
  split at h
  · obtain ⟨action, haction, rfl⟩ := Fallible.map_eq_ok.mp h
    intro a ha
    rw [List.mem_singleton.mp ha]
    exact ⟨_, _, _, _, haction⟩
  · cases h
    simp [MadeByPropose]

theorem proposed_of_heuristicPlan {word : WordChars} {low : Lowering} {freshId : ℕ → String}
    {request : String} {reg : ToolRegistry σ} {plan : List ProposedAction}
    (h : heuristicPlan word low freshId request reg = .ok plan) : MadeByPropose reg plan := by
  rw [heuristicPlan] at h
  split at h
  · obtain ⟨action, haction, rfl⟩ := Fallible.map_eq_ok.mp h
    intro a ha
    rw [List.mem_singleton.mp ha]
    exact ⟨_, _, _, _, haction⟩
  · simp only [Fallible.bind_eq_ok, Fallible.pure_eq_ok] at h
    obtain ⟨sends, hsends, searches, hsearches, rfl⟩ := h
    intro a ha
    rcases List.mem_append.mp ha with ha | ha
    · exact proposed_of_proposeIf hsends a ha
    · exact proposed_of_proposeIf hsearches a ha

/-- Whatever the model answers, both strategies plan nothing but what `propose` makes. -/
theorem proposed_of_defaultPlanFn {model : ChatModel σ} {spec : String → BaseTool σ → ToolSpec}
    {freshId : ℕ → String} {word : WordChars} {low : Lowering} {hasKey : Bool} {request : String}
    {reg : ToolRegistry σ} {context : List Entity} {world world' : σ} {plan : List ProposedAction}
    (h : defaultPlanFn model spec freshId word low hasKey request reg context world = (.ok plan, world')) :
    MadeByPropose reg plan := by
  rw [defaultPlanFn] at h
  split at h
  · rw [llmPlan] at h
    split at h
    · cases h
    · exact proposed_of_proposeCalls (Prod.mk.inj h).1
  · exact proposed_of_heuristicPlan (Prod.mk.inj h).1

end Atlas
