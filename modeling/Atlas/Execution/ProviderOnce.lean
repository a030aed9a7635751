import Atlas.AdapterEngine
import Atlas.Execution.Ledger

/-! The ledger against the provider. A schema tool decides after the request is out whether it succeeded,
    and its response map is checked then as well; what the provider did is told by its reply alone. The two
    agree, and a gated action is accepted at most once, exactly when the first reply that accepts carries
    every key the response map declares. -/

namespace Atlas

/-- The provider did what the request asked: a successful reply with a JSON object whose `ok_field` is
    truthy, or with any object where the schema names no such field. -/
def accepts (schema : ToolSchema) (response : HttpResponse) : Bool :=
  (decide (200 ≤ response.statusCode) && decide (response.statusCode ≤ 299)) &&
    match response.body with
    | .ok (.obj data) => okReply schema data
    | _ => false

/-- The reply carries every key that the response map of the schema declares. -/
def completeReply (schema : ToolSchema) (response : HttpResponse) : Bool :=
  match response.body with
  | .ok (.obj data) => schema.response.all fun f =>
      match f.2 with
      | .path key => (Json.field? key data).isSome
      | .value _ => true
  | _ => false

/-- The reply the `n`-th run will get, if it gets as far as sending and is answered. -/
def Outside.replyAt (w : Outside) (n : ℕ) : Option HttpResponse :=
  match w.accessToken n, w.delivery n with
  | .ok _, .answered response => some response
  | _, _ => none

/-- The `n`-th run sends a request that the provider accepts. -/
def Outside.acceptedAt (w : Outside) (schema : ToolSchema) (n : ℕ) : Bool :=
  ((w.replyAt n).map (accepts schema)).getD false

def Outside.completeAt (w : Outside) (schema : ToolSchema) (n : ℕ) : Bool :=
  ((w.replyAt n).map (completeReply schema)).getD false

/-- The number of requests sent that the provider accepted. -/
def Outside.acceptedCount (w : Outside) (schema : ToolSchema) : ℕ :=
  w.sent.countP fun x => (x.response.map (accepts schema)).getD false

/-- At most one request is accepted, and a call that records a failure had none accepted. -/
structure AcceptedOnce (schema : ToolSchema) (st : RunState Outside) (cs : List (GuardedCall Outside)) :
    Prop where
  once : (guardedEnd st cs).world.acceptedCount schema ≤ st.world.acceptedCount schema + 1
  failedOnly : ∀ s ∈ guardedSteps st cs, s.failed = true →
    s.after.world.acceptedCount schema = s.before.world.acceptedCount schema

/-- Among the next `n` runs, the first reply that accepts is complete. -/
def FirstAcceptedComplete (schema : ToolSchema) (w : Outside) (n : ℕ) : Prop :=
  ∀ k < n, (∀ j < k, w.acceptedAt schema (w.runs + j) = false) →
    w.acceptedAt schema (w.runs + k) = true → w.completeAt schema (w.runs + k) = true

/-! ### One run of a schema tool -/

variable {engine : AdapterEngine} {schema : ToolSchema}

theorem decodeJsonResponse_eq_ok {response : HttpResponse} {data : Args} :
    decodeJsonResponse response = .ok data ↔
      (200 ≤ response.statusCode ∧ response.statusCode ≤ 299) ∧ response.body = .ok (.obj data) := by
  unfold decodeJsonResponse
  by_cases hredirect : 300 ≤ response.statusCode ∧ response.statusCode ≤ 399
  · rw [if_pos hredirect]
    refine iff_of_false (by simp) ?_
    omega
  · rw [if_neg hredirect]
    by_cases hstatus : 200 ≤ response.statusCode ∧ response.statusCode ≤ 299
    · rw [if_neg (not_not.mpr hstatus), and_iff_right hstatus]
      rcases response.body with e | v
      · simp
      · cases v <;> simp
    · rw [if_pos hstatus]
      exact iff_of_false (by simp) fun h => hstatus h.1

/-- A reply accepts exactly when it decodes to an object that says so. -/
theorem accepts_iff {response : HttpResponse} : accepts schema response = true ↔
    ∃ data, decodeJsonResponse response = .ok data ∧ okReply schema data = true := by
  simp only [decodeJsonResponse_eq_ok, accepts, Bool.and_eq_true, decide_eq_true_eq]
  rcases response.body with e | v
  · simp
  · cases v <;> simp

/-- Shaping succeeds where every declared key is there. -/
theorem shapeResponse_isOk (data : Args) (fields : List (String × ResponseField)) :
    (∃ shaped, shapeResponse data fields = .ok shaped) ↔ fields.all (fun f =>
      match f.2 with
      | .path key => (Json.field? key data).isSome
      | .value _ => true) = true := by
  induction fields with
  | nil => simp [shapeResponse]
  | cons f fields ih =>
    obtain ⟨key, field⟩ := f
    rw [List.all_cons, Bool.and_eq_true, ← ih]
    cases field with
    | value v => simp [shapeResponse, Fallible.exists_map_eq_ok]
    | path name =>
      cases hv : Json.field? name data with
      | none => simp [shapeResponse, hv]
      | some v => simp [shapeResponse, hv, Fallible.exists_map_eq_ok]

/-- What is made of a reply is a result exactly when the reply accepts and is complete. -/
theorem handleReply_isOk {response : HttpResponse} {data : Args}
    (h : decodeJsonResponse response = .ok data) : (∃ out, handleReply schema data = .ok out) ↔
      accepts schema response = true ∧ completeReply schema response = true := by
  have hacc : accepts schema response = true ↔ okReply schema data = true := by
    rw [accepts_iff]
    exact ⟨fun ⟨d, hd, hok⟩ => by rw [h] at hd; cases hd; exact hok, fun hok => ⟨data, h, hok⟩⟩
  have hcomplete : completeReply schema response = true ↔
      ∃ shaped, shapeResponse data schema.response = .ok shaped := by
    rw [shapeResponse_isOk, completeReply, (decodeJsonResponse_eq_ok.mp h).2]
  rw [hacc, hcomplete, handleReply]
  cases hok : okReply schema data with
  | false => simp
  | true =>
    have hmap : (∃ out, Json.obj <$> shapeResponse data schema.response = .ok out) ↔
        ∃ shaped, shapeResponse data schema.response = .ok shaped := Fallible.exists_map_eq_ok
    simp only [if_true, true_and]
    exact hmap

/-- What one run does: it uses up one token and one delivery, sends at most one request, and succeeds
    exactly when that request is accepted with a complete reply. -/
theorem runTool_spec (schema : ToolSchema) (args : Args) (w : Outside) (hconf : engine.configured = true) :
    (engine.runTool schema args w).2.accessToken = w.accessToken ∧
    (engine.runTool schema args w).2.delivery = w.delivery ∧
    (engine.runTool schema args w).2.runs = w.runs + 1 ∧
    (engine.runTool schema args w).2.acceptedCount schema =
      w.acceptedCount schema + (w.acceptedAt schema w.runs).toNat ∧
    ((∃ out, (engine.runTool schema args w).1 = .ok out) ↔
      w.acceptedAt schema w.runs = true ∧ w.completeAt schema w.runs = true) := by
  have hreply : w.replyAt w.runs = match w.accessToken w.runs, w.delivery w.runs with
    | .ok _, .answered response => some response
    | _, _ => none := rfl
  simp only [AdapterEngine.runTool, hconf, Bool.not_true, Bool.false_eq_true, if_false,
    Outside.acceptedAt, Outside.completeAt, hreply]
  cases htoken : w.accessToken w.runs with
  | error e => simp [Outside.acceptedCount]
  | ok token =>
    cases hdelivery : w.delivery w.runs with
    | refused e => simp [postJson, Outside.acceptedCount]
    | lost e => simp [postJson, Outside.acceptedCount]
    | answered response =>
      simp only [postJson, Option.map_some, Option.getD_some]
      have hcount : (w.sent ++ [(⟨schema.endpoint, buildPayload schema args, token, some response⟩ :
          Exchange)]).countP (fun x => (x.response.map (accepts schema)).getD false) =
            w.acceptedCount schema + (accepts schema response).toNat := by
        rw [List.countP_append, List.countP_singleton, Option.map_some, Option.getD_some]
        cases accepts schema response <;> rfl
      cases hdecode : decodeJsonResponse response with
      | error e =>
        have hacc : accepts schema response = false := by
          rw [← Bool.not_eq_true, accepts_iff]
          rintro ⟨data, hd, -⟩
          rw [hdecode] at hd; cases hd
        refine ⟨rfl, rfl, rfl, hcount, ?_⟩
        simp [hacc]
      | ok data => exact ⟨rfl, rfl, rfl, hcount, handleReply_isOk hdecode⟩

/-! ### Sequences of calls -/

variable {reg : ToolRegistry Outside} {action : ProposedAction} {tool : BaseTool Outside}
  {st : RunState Outside}

/-- The calls for one action by callers in turn. -/
def callsFor (reg : ToolRegistry Outside) (action : ProposedAction)
    (callers : List (Principal × Option AuditToolContext)) : List (GuardedCall Outside) :=
  callers.map fun c => ⟨reg, action, c.1, c.2⟩

/-- A call for an action that counts as executed changes nothing outside. -/
theorem world_of_already {c : GuardedCall Outside} (h : alreadyExecuted c.action st.audit = true) :
    (c.step st).failed = false ∧ (c.step st).after.world = st.world ∧
      alreadyExecuted c.action (c.step st).after.audit = true := by
  obtain ⟨-, hran, hworld, -⟩ | ⟨hno, -⟩ | ⟨hno, -⟩ := step_cases c st
  · refine ⟨by rw [GuardedStep.failed, hran]; rfl, hworld, ?_⟩
    rw [step_replay h, audit_withAudit, alreadyExecuted, AuditLog.hasExecuted_replaySkipped]
    exact h
  · rw [hno] at h; cases h
  · rw [hno] at h; cases h

/-- Where every call leaves the world as it is, a sequence of them does. -/
theorem world_of_quiet (quiet : RunState Outside → Prop)
    (hstep : ∀ (c : GuardedCall Outside) st, c.registry = reg → c.action = action → quiet st →
      quiet (c.step st).after ∧ (c.step st).after.world = st.world) :
    ∀ (callers : List (Principal × Option AuditToolContext)) (st : RunState Outside), quiet st →
      (guardedEnd st (callsFor reg action callers)).world = st.world ∧
      ∀ s ∈ guardedSteps st (callsFor reg action callers), s.after.world = s.before.world := by
  intro callers
  induction callers with
  | nil => exact fun st _ => ⟨rfl, fun s hs => by cases hs⟩
  | cons c callers ih =>
    intro st hst
    obtain ⟨hquiet, hworld⟩ := hstep ⟨reg, action, c.1, c.2⟩ st rfl rfl hst
    obtain ⟨hend, hsteps⟩ := ih _ hquiet
    refine ⟨hend.trans hworld, fun s hs => ?_⟩
    rcases List.mem_cons.mp hs with rfl | hs
    · exact hworld
    · exact hsteps s hs

/-- Once the action counts as executed, no request goes out any more. -/
theorem world_of_calls_already (reg : ToolRegistry Outside)
    (callers : List (Principal × Option AuditToolContext))
    (h : alreadyExecuted action st.audit = true) :
    (guardedEnd st (callsFor reg action callers)).world = st.world ∧
      ∀ s ∈ guardedSteps st (callsFor reg action callers), s.after.world = s.before.world := by
  refine world_of_quiet (fun st => alreadyExecuted action st.audit = true) ?_ callers st h
  rintro c st - rfl hst
  obtain ⟨-, hworld, hkeep⟩ := world_of_already hst
  exact ⟨hkeep, hworld⟩

theorem acceptedOnce_of_world {cs : List (GuardedCall Outside)}
    (h : (guardedEnd st cs).world = st.world ∧ ∀ s ∈ guardedSteps st cs, s.after.world = s.before.world) :
    AcceptedOnce schema st cs :=
  ⟨by rw [h.1]; exact Nat.le_succ _, fun s hs _ => by rw [h.2 s hs]⟩

/-- A call whose arguments the tool does not take, or of a tool that is not wired, sends nothing. -/
theorem world_of_unsendable {c : GuardedCall Outside} {host : String}
    (hget : c.registry.get c.action.tool = .ok (engine.schemaTool schema host))
    (h : (∀ args, engine.argsModel schema c.action.args ≠ .ok args) ∨ engine.configured = false) :
    (c.step st).after.world = st.world := by
  cases halready : alreadyExecuted c.action st.audit with
  | true => exact (world_of_already halready).2.1
  | false =>
    rw [step_run halready, ToolRegistry.execute]
    split
    next => rfl
    next tool args hres =>
      obtain ⟨hget', hargs⟩ := ToolRegistry.resolve_eq_ok.mp hres
      rw [hget] at hget'
      cases hget'
      rcases h with h | h
      · exact absurd hargs (h args)
      · simp only [AdapterEngine.schemaTool, AdapterEngine.runTool, h, Bool.not_false, if_true]

/-- Any other call of an action that does not count as executed runs the tool. -/
theorem step_sendable {c : GuardedCall Outside} {host : String} {args : Args}
    (hget : c.registry.get c.action.tool = .ok (engine.schemaTool schema host))
    (hargs : engine.argsModel schema c.action.args = .ok args)
    (hnot : alreadyExecuted c.action st.audit = false) :
    (c.step st).ran = true ∧ (c.step st).after.world = (engine.runTool schema args st.world).2 ∧
      ((c.step st).result.ok = true ↔ ∃ out, (engine.runTool schema args st.world).1 = .ok out) := by
  have hran : (c.step st).ran = true := by
    obtain ⟨hyes, -⟩ | ⟨-, hran, -⟩ | ⟨-, hran, -⟩ := step_cases c st
    · rw [hnot] at hyes; cases hyes
    · exact hran
    · exact hran
  have hres : c.registry.resolve c.action = .ok (engine.schemaTool schema host, args) :=
    ToolRegistry.resolve_eq_ok.mpr ⟨hget, hargs⟩
  refine ⟨hran, ?_⟩
  rw [step_run hnot, ToolRegistry.execute, hres]
  simp only [AdapterEngine.schemaTool]
  rcases hrun : engine.runTool schema args st.world with ⟨e | out, w⟩
  · exact ⟨rfl, by simp [ToolRegistry.errorResult]⟩
  · exact ⟨rfl, by simp⟩

/-- A first run without an accepted request moves the question to the runs after it. -/
theorem firstAcceptedComplete_succ {w w' : Outside} {n : ℕ} (htoken : w'.accessToken = w.accessToken)
    (hdelivery : w'.delivery = w.delivery) (hruns : w'.runs = w.runs + 1)
    (hnot : w.acceptedAt schema w.runs = false) :
    FirstAcceptedComplete schema w (n + 1) ↔ FirstAcceptedComplete schema w' n := by
  have hat : ∀ k, w'.replyAt k = w.replyAt k := by
    intro k; simp only [Outside.replyAt, htoken, hdelivery]
  have hshift : ∀ k, w'.runs + k = w.runs + (k + 1) := by intro k; omega
  simp only [FirstAcceptedComplete, Outside.acceptedAt, Outside.completeAt, hat, hshift]
  constructor
  · intro h k hk hbefore hacc
    refine h (k + 1) (by omega) (fun j hj => ?_) hacc
    cases j with
    | zero => exact hnot
    | succ j => exact hbefore j (by omega)
  · intro h k hk hbefore hacc
    cases k with
    | zero => rw [Outside.acceptedAt] at hnot; rw [Nat.add_zero, hnot] at hacc; cases hacc
    | succ k => exact h k (by omega) (fun j hj => hbefore (j + 1) (by omega)) hacc

/-- Where the first request is accepted, the question is its reply's. -/
theorem firstAcceptedComplete_of_accepted {w : Outside} {n : ℕ} (hacc : w.acceptedAt schema w.runs = true) :
    FirstAcceptedComplete schema w (n + 1) ↔ w.completeAt schema w.runs = true := by
  constructor
  · exact fun h => h 0 (Nat.succ_pos n) (fun j hj => absurd hj (Nat.not_lt_zero j)) hacc
  · intro hcomplete k _ hbefore _
    cases k with
    | zero => exact hcomplete
    | succ k =>
      have hfirst := hbefore 0 (Nat.succ_pos k)
      rw [Nat.add_zero, hacc] at hfirst
      cases hfirst

/-- A call whose tool ran failed exactly where its result is not ok. -/
theorem failed_eq_not_ok {c : GuardedCall Outside} (hran : (c.step st).ran = true) :
    (c.step st).failed = !(c.step st).result.ok := by
  rw [GuardedStep.failed, hran, Bool.true_and]

theorem acceptedOnce_cons {c : GuardedCall Outside} {cs : List (GuardedCall Outside)} :
    AcceptedOnce schema st (c :: cs) ↔
      (guardedEnd (c.step st).after cs).world.acceptedCount schema ≤ st.world.acceptedCount schema + 1 ∧
      ((c.step st).failed = true →
        (c.step st).after.world.acceptedCount schema = st.world.acceptedCount schema) ∧
      ∀ s ∈ guardedSteps (c.step st).after cs, s.failed = true →
        s.after.world.acceptedCount schema = s.before.world.acceptedCount schema := by
  constructor
  · rintro ⟨honce, hfailed⟩
    exact ⟨honce, hfailed _ List.mem_cons_self, fun s hs => hfailed s (List.mem_cons_of_mem _ hs)⟩
  · rintro ⟨honce, hfirst, hrest⟩
    refine ⟨honce, fun s hs => ?_⟩
    rcases List.mem_cons.mp hs with rfl | hs
    · exact hfirst
    · exact hrest s hs

/-- For an action whose tool can be run, the property is a matter of the replies. -/
theorem acceptedOnce_iff_complete {host : String} {args : Args}
    (hget : reg.get action.tool = .ok (engine.schemaTool schema host))
    (hargs : engine.argsModel schema action.args = .ok args) (hconf : engine.configured = true)
    (hgated : action.needsApproval = true) (callers : List (Principal × Option AuditToolContext))
    (hnot : alreadyExecuted action st.audit = false) :
    AcceptedOnce schema st (callsFor reg action callers) ↔
      FirstAcceptedComplete schema st.world callers.length := by
  induction callers generalizing st with
  | nil => exact iff_of_true ⟨Nat.le_succ _, fun s hs => by cases hs⟩ fun k hk => by cases hk
  | cons c callers ih =>
    obtain ⟨hran, hworld, hok⟩ := step_sendable (c := ⟨reg, action, c.1, c.2⟩) hget hargs hnot
    obtain ⟨htoken, hdelivery, hruns, hcount, hisOk⟩ := runTool_spec schema args st.world hconf
    rw [← hworld] at htoken hdelivery hruns hcount
    rw [hisOk] at hok
    have hcons : callsFor reg action (c :: callers) =
        ⟨reg, action, c.1, c.2⟩ :: callsFor reg action callers := rfl
    rw [hcons, acceptedOnce_cons, List.length_cons]
    have hfailed := failed_eq_not_ok hran
    cases hacc : st.world.acceptedAt schema st.world.runs with
    | false =>
      -- nothing accepted yet: the call failed, and the rest starts from an equal footing
      have hno : (GuardedCall.step ⟨reg, action, c.1, c.2⟩ st).result.ok = false := by
        rw [← Bool.not_eq_true, hok, hacc]; simp
      rw [hno, Bool.not_false] at hfailed
      have hnot' : alreadyExecuted action
          (GuardedCall.step ⟨reg, action, c.1, c.2⟩ st).after.audit = false :=
        (failsRetryably_of_failed hfailed).2
      rw [hacc, Bool.toNat_false, Nat.add_zero] at hcount
      rw [firstAcceptedComplete_succ htoken hdelivery hruns hacc, ← ih hnot', hcount]
      exact ⟨fun h => ⟨by rw [hcount]; exact h.1, h.2.2⟩,
        fun h => ⟨by rw [← hcount]; exact h.1, fun _ => rfl, h.2⟩⟩
    | true =>
      rw [hacc, Bool.toNat_true] at hcount
      rw [firstAcceptedComplete_of_accepted hacc]
      cases hcomplete : st.world.completeAt schema st.world.runs with
      | false =>
        -- accepted, and recorded as a failure
        have hno : (GuardedCall.step ⟨reg, action, c.1, c.2⟩ st).result.ok = false := by
          rw [← Bool.not_eq_true, hok, hcomplete]; simp
        rw [hno, Bool.not_false] at hfailed
        refine iff_of_false (fun h => ?_) Bool.false_ne_true
        have := h.2.1 hfailed
        omega
      | true =>
        -- accepted and recorded as executed, so the later calls are replays
        have hyes : (GuardedCall.step ⟨reg, action, c.1, c.2⟩ st).result.ok = true :=
          hok.mpr ⟨hacc, hcomplete⟩
        have hsucc : (GuardedCall.step ⟨reg, action, c.1, c.2⟩ st).succeeded = true := by
          rw [GuardedStep.succeeded, hran, hyes]; rfl
        obtain ⟨e, -, hlast⟩ := lastCounted_of_succeeded hsucc
        have halready : alreadyExecuted action
            (GuardedCall.step ⟨reg, action, c.1, c.2⟩ st).after.audit = true := by
          have hneeds : requiresApproval (.tier action.riskTier) = true := hgated
          rw [alreadyExecuted, hneeds, hasExecuted_of_lastCounted hlast]; rfl
        obtain ⟨hend, hsteps⟩ := world_of_calls_already reg callers halready
        refine iff_of_true ⟨by rw [hend, hcount], fun h => ?_, fun s hs _ => by rw [hsteps s hs]⟩ rfl
        rw [hfailed, hyes, Bool.not_true] at h
        cases h

theorem buildTool_eq_ok (h : engine.buildTool schema = .ok tool) :
    ∃ host, tool = engine.schemaTool schema host := by
  simp only [AdapterEngine.buildTool, Fallible.bind_eq_ok, Fallible.pure_eq_ok] at h
  obtain ⟨-, -, url, -, rfl⟩ := h
  exact ⟨engine.lower url.host, rfl⟩

/-- A gated action of a schema tool is accepted at most once, and recorded as failed only where it was not
    accepted, exactly when it counts as executed before, cannot be sent at all, or the first reply that
    accepts it is complete. -/
theorem schemaTool_acceptedOnce_iff (engine : AdapterEngine) (schema : ToolSchema)
    (tool : BaseTool Outside) (reg : ToolRegistry Outside) (action : ProposedAction)
    (st : RunState Outside) (callers : List (Principal × Option AuditToolContext))
    (hbuild : engine.buildTool schema = .ok tool) (hget : reg.get action.tool = .ok tool)
    (hgated : action.needsApproval = true) :
    AcceptedOnce schema st (callsFor reg action callers) ↔
      alreadyExecuted action st.audit = true ∨
      (∀ args, engine.argsModel schema action.args ≠ .ok args) ∨ engine.configured = false ∨
      FirstAcceptedComplete schema st.world callers.length := by
  obtain ⟨host, rfl⟩ := buildTool_eq_ok hbuild
  cases halready : alreadyExecuted action st.audit with
  | true =>
    exact iff_of_true (acceptedOnce_of_world (world_of_calls_already _ callers halready)) (Or.inl rfl)
  | false =>
    have hunsendable : (∀ args, engine.argsModel schema action.args ≠ .ok args) ∨
        engine.configured = false → AcceptedOnce schema st (callsFor reg action callers) := by
      intro h
      refine acceptedOnce_of_world (world_of_quiet (fun _ => True) ?_ callers st trivial)
      rintro c st rfl rfl -
      exact ⟨trivial, world_of_unsendable hget h⟩
    by_cases hargs : ∃ args, engine.argsModel schema action.args = .ok args
    · obtain ⟨args, hargs⟩ := hargs
      cases hconf : engine.configured with
      | false => exact iff_of_true (hunsendable (Or.inr hconf)) (Or.inr (Or.inr (Or.inl rfl)))
      | true =>
        rw [acceptedOnce_iff_complete hget hargs hconf hgated callers halready]
        simp [hargs]
    · have hnone : ∀ args, engine.argsModel schema action.args ≠ .ok args := not_exists.mp hargs
      exact iff_of_true (hunsendable (Or.inl hnone)) (Or.inr (Or.inl hnone))

/-! ### Posting to Slack as a user -/

/-- An engine with Slack on its allowlist; its argument model takes the two strings of the schema. -/
def slackEngine : AdapterEngine where
  parseUrl _ := .ok { scheme := "https", userinfo := "", host := "slack.com" }
  argsModel _ args :=
    match Json.field? "channel" args, Json.field? "text" args with
    | some (.str c), some (.str t) => .ok [("channel", .str c), ("text", .str t)]
    | _, _ => .error ⟨"ValidationError", "validation error for slack_post_as_user_args"⟩
  lower s := s
  configured := true
  allowlist := ["slack.com"]

def slackTool : BaseTool Outside := slackEngine.schemaTool slackPostSchema "slack.com"

def slackRegistry : ToolRegistry Outside where
  tools := ⟨[("slack_post_as_user", slackTool)], by simp⟩
  named := fun {n t} h => by
    obtain ⟨rfl, rfl⟩ : n = "slack_post_as_user" ∧ t = slackTool := by
      simpa using Dict.get?_eq_some_iff.mp h
    rfl

def slackAction : ProposedAction where
  actionId := "act_1"
  tool := "slack_post_as_user"
  args := [("channel", .str "C1"), ("text", .str "hi")]
  riskTier := .send
  requiredPermission := some "tool:slack:post_as_user"

/-- A world in which the provider answers every request with one object. -/
def slackWorld (data : Args) : Outside where
  accessToken _ := .ok "xoxp"
  delivery _ := .answered ⟨200, ⟨"HTTPStatusError", ""⟩, .ok (.obj data)⟩

def slackState (data : Args) : RunState Outside := ⟨freshLog, slackWorld data, []⟩

/-- Two calls in a row for the action. -/
def slackCallers : List (Principal × Option AuditToolContext) :=
  [({ userId := "alice", orgId := some "acme" }, none), ({ userId := "alice", orgId := some "acme" }, none)]

/-- With complete replies the post is made once. -/
theorem schemaTool_acceptedOnce_complete :
    AcceptedOnce slackPostSchema
      (slackState [("ok", .bool true), ("ts", .str "1.0"), ("channel", .str "C1")])
      (callsFor slackRegistry slackAction slackCallers) :=
  (schemaTool_acceptedOnce_iff slackEngine slackPostSchema slackTool slackRegistry slackAction _ _
    rfl rfl rfl).mpr (Or.inr (Or.inr (Or.inr fun _ _ _ _ => rfl)))

/-- A reply that accepts the post without a `ts` is recorded as a failure, and the post is made again. -/
theorem schemaTool_accepted_twice :
    slackEngine.buildTool slackPostSchema = .ok slackTool ∧
    (guardedEnd (slackState [("ok", .bool true), ("channel", .str "C1")])
      (callsFor slackRegistry slackAction slackCallers)).world.acceptedCount slackPostSchema = 2 ∧
    (guardedSteps (slackState [("ok", .bool true), ("channel", .str "C1")])
      (callsFor slackRegistry slackAction slackCallers)).map (·.failed) = [true, true] ∧
    ¬AcceptedOnce slackPostSchema (slackState [("ok", .bool true), ("channel", .str "C1")])
      (callsFor slackRegistry slackAction slackCallers) := by
  have htwice : (guardedEnd (slackState [("ok", .bool true), ("channel", .str "C1")])
      (callsFor slackRegistry slackAction slackCallers)).world.acceptedCount slackPostSchema = 2 := by
    decide +kernel
  refine ⟨rfl, htwice, by decide +kernel, fun h => ?_⟩
  have hle := h.once
  rw [htwice] at hle
  exact absurd hle (by decide)

end Atlas
