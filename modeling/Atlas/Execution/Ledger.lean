import Atlas.Execution.Guarded

/-! The audit log against what really happened: sequences of `execute_guarded` calls on one log, of any
    length and in any order, each with its own registry, so that a tool may succeed or fail as it likes.
    `step_cases` says what one call does (a replay, a success or a failure, one event each); what the log
    counts as executed is then exactly what ran successfully, and a gated action runs successfully at
    most once. -/

namespace Atlas

variable {σ : Type}

/-- The arguments of one call of `execute_guarded`. -/
structure GuardedCall (σ : Type) where
  registry : ToolRegistry σ
  action : ProposedAction
  principal : Principal
  extra : Option AuditToolContext := none

/-- A call with the state it found and what it left. -/
structure GuardedStep (σ : Type) where
  call : GuardedCall σ
  before : RunState σ
  result : ActionResult
  after : RunState σ

def GuardedCall.step (c : GuardedCall σ) (st : RunState σ) : GuardedStep σ :=
  let (result, after) := executeGuarded c.registry c.action c.principal c.extra st
  ⟨c, st, result, after⟩

/-- The calls of a sequence, one after the other. -/
def guardedSteps (st : RunState σ) : List (GuardedCall σ) → List (GuardedStep σ)
  | [] => []
  | c :: cs => c.step st :: guardedSteps (c.step st).after cs

/-- The state after a sequence of calls. -/
def guardedEnd (st : RunState σ) (cs : List (GuardedCall σ)) : RunState σ :=
  cs.foldl (fun st c => (c.step st).after) st

/-- The event counts as an execution of the action. -/
def countedFor (i : String) (event : AuditEvent) : Bool := countsAsExecuted event && event.actionId == i

namespace GuardedStep

def actionId (s : GuardedStep σ) : String := s.call.action.actionId

/-- The call reached `registry.execute`. -/
def ran (s : GuardedStep σ) : Bool := decide (s.before.calls.length < s.after.calls.length)

def succeeded (s : GuardedStep σ) : Bool := s.ran && s.result.ok

def failed (s : GuardedStep σ) : Bool := s.ran && !s.result.ok

def succeededFor (i : String) (s : GuardedStep σ) : Bool := s.succeeded && s.actionId == i

/-- The call appended this event and nothing else. -/
def Appends (s : GuardedStep σ) (e : AuditEvent) : Prop :=
  s.after.audit.events = s.before.audit.events ++ [e] ∧ e.actionId = s.actionId

/-- The call ran no tool, and reports the success of an earlier call. -/
def ReplayOf (s t : GuardedStep σ) : Prop :=
  t.ran = false ∧ t.after.world = t.before.world ∧ t.result.ok = true ∧
  (∃ e, s.Appends e ∧
    t.result.output = .obj [("replay_skipped", .bool true), ("prior", .obj e.detail)]) ∧
  ∃ e, t.Appends e ∧ e.eventType = .replaySkipped

/-- The call appended one `FAILED`, which does not count, and the action may be tried again. -/
def FailsRetryably (s : GuardedStep σ) : Prop :=
  (∃ e, s.Appends e ∧ e.eventType = .failed ∧ countsAsExecuted e = false) ∧
  alreadyExecuted s.call.action s.after.audit = false

end GuardedStep

/-- Distinct actions have distinct ids. -/
def DistinctIds (cs : List (GuardedCall σ)) : Prop :=
  ∀ c ∈ cs, ∀ c' ∈ cs, c.action.actionId = c'.action.actionId → c.action = c'.action

/-- What the log tells about a sequence of calls is what happened. -/
structure LedgerKept (st : RunState σ) (cs : List (GuardedCall σ)) : Prop where
  appends : ∀ s ∈ guardedSteps st cs, ∃ e, s.Appends e
  once : ∀ c ∈ cs, c.action.needsApproval = true →
    (guardedSteps st cs).countP (·.succeededFor c.action.actionId) ≤ 1
  replays : ∀ (i j : ℕ) (s t : GuardedStep σ), (guardedSteps st cs)[i]? = some s →
    (guardedSteps st cs)[j]? = some t → i < j → s.succeeded = true → t.actionId = s.actionId →
    t.call.action.needsApproval = true → s.ReplayOf t
  failures : ∀ s ∈ guardedSteps st cs, s.failed = true → s.FailsRetryably
  counted : ∀ i, (guardedEnd st cs).audit.events.countP (countedFor i) =
    st.audit.events.countP (countedFor i) + (guardedSteps st cs).countP (·.succeededFor i)

/-! ### One call -/

theorem countsAsExecuted_eq_false {e : AuditEvent} (h : e.eventType ≠ .executed) :
    countsAsExecuted e = false := if_neg h

theorem step_replay {c : GuardedCall σ} {st : RunState σ} (h : alreadyExecuted c.action st.audit = true) :
    c.step st = ⟨c, st, replayResult c.action (st.audit.replaySkipped c.action "already executed" c.extra),
      st.withAudit (st.audit.replaySkipped c.action "already executed" c.extra)⟩ := by
  rw [GuardedCall.step, executeGuarded, if_pos h]

theorem step_run {c : GuardedCall σ} {st : RunState σ} (h : alreadyExecuted c.action st.audit = false) :
    c.step st = ⟨c, st, (c.registry.execute c.action c.principal st.world).1,
      { audit := recordOutcome st.audit (c.registry.execute c.action c.principal st.world).1 c.extra
        world := (c.registry.execute c.action c.principal st.world).2
        calls := st.calls ++ [⟨c.action, c.principal, st.world,
          (c.registry.execute c.action c.principal st.world).1⟩] }⟩ := by
  rw [GuardedCall.step, executeGuarded, if_neg (by simp [h])]

/-- The event of an outcome: it counts after a success and is a `FAILED` otherwise. -/
theorem events_recordOutcome (log : AuditLog) (r : ActionResult) (extra : Option AuditToolContext) :
    ∃ e, (recordOutcome log r extra).events = log.events ++ [e] ∧ e.actionId = r.actionId ∧
      (r.ok = true → countsAsExecuted e = true) ∧ (r.ok = false → e.eventType = .failed) := by
  rw [recordOutcome]
  split
  next ok =>
    refine ⟨_, rfl, rfl, fun _ => ?_, fun hno => absurd ok (by simp [hno])⟩
    simp [countsAsExecuted, AuditLog.lookup_ok_mergeDetail, ok, Json.isTrue]
  next ok => exact ⟨_, rfl, rfl, fun hyes => absurd hyes ok, fun _ => rfl⟩

/-- A call replays, succeeds or fails. -/
theorem step_cases (c : GuardedCall σ) (st : RunState σ) :
    (alreadyExecuted c.action st.audit = true ∧ (c.step st).ran = false ∧
      (c.step st).after.world = st.world ∧
      (c.step st).result = replayResult c.action (c.step st).after.audit ∧
      ∃ e, (c.step st).Appends e ∧ e.eventType = .replaySkipped) ∨
    (alreadyExecuted c.action st.audit = false ∧ (c.step st).ran = true ∧ (c.step st).result.ok = true ∧
      ∃ e, (c.step st).Appends e ∧ countsAsExecuted e = true) ∨
    (alreadyExecuted c.action st.audit = false ∧ (c.step st).ran = true ∧ (c.step st).result.ok = false ∧
      ∃ e, (c.step st).Appends e ∧ e.eventType = .failed) := by
  cases halready : alreadyExecuted c.action st.audit with
  | true =>
    rw [step_replay halready]
    exact Or.inl ⟨rfl, decide_eq_false (lt_irrefl _), rfl, rfl, _, ⟨rfl, rfl⟩, rfl⟩
  | false =>
    obtain ⟨e, hevents, hid, hcounts, hfailed⟩ := events_recordOutcome st.audit
      (c.registry.execute c.action c.principal st.world).1 c.extra
    rw [ToolRegistry.actionId_execute] at hid
    have hran : ∀ x : Call σ, decide (st.calls.length < (st.calls ++ [x]).length) = true := by simp
    rw [step_run halready]
    cases hok : (c.registry.execute c.action c.principal st.world).1.ok with
    | true => exact Or.inr (Or.inl ⟨rfl, hran _, rfl, e, ⟨hevents, hid⟩, hcounts hok⟩)
    | false => exact Or.inr (Or.inr ⟨rfl, hran _, rfl, e, ⟨hevents, hid⟩, hfailed hok⟩)

/-- The last event that counts as an execution of the action, which a replay reports. -/
def lastCounted (events : List AuditEvent) (i : String) : Option AuditEvent :=
  events.reverse.find? (countedFor i)

theorem lastCounted_concat (events : List AuditEvent) (e : AuditEvent) (i : String) :
    lastCounted (events ++ [e]) i = if countedFor i e then some e else lastCounted events i := by
  rw [lastCounted, List.reverse_append, List.reverse_singleton, List.singleton_append, List.find?_cons]
  cases countedFor i e <;> rfl

theorem hasExecuted_of_lastCounted {log : AuditLog} {i : String} {e : AuditEvent}
    (h : lastCounted log.events i = some e) : log.hasExecuted i = true := by
  have hmem := List.mem_of_find?_eq_some h
  have hcounted : countedFor i e = true := List.find?_some (p := countedFor i) h
  exact List.any_eq_true.mpr ⟨e, List.mem_reverse.mp hmem, hcounted⟩

/-- A replay reports the last counted event. -/
theorem output_replayResult {action : ProposedAction} {log : AuditLog} {e : AuditEvent}
    (h : lastCounted log.events action.actionId = some e) :
    (replayResult action log).output =
      .obj [("replay_skipped", .bool true), ("prior", .obj e.detail)] := by
  have h' : log.events.reverse.find? (fun e => countsAsExecuted e && e.actionId == action.actionId) =
      some e := h
  simp only [replayResult, h']

/-- What the log counts for an action grows by the success of the call. -/
theorem countP_step (c : GuardedCall σ) (st : RunState σ) (i : String) :
    (c.step st).after.audit.events.countP (countedFor i) =
      st.audit.events.countP (countedFor i) + ((c.step st).succeededFor i).toNat := by
  have happ : ∀ e, (c.step st).Appends e → (c.step st).after.audit.events.countP (countedFor i) =
      st.audit.events.countP (countedFor i) + (countedFor i e).toNat := by
    rintro e ⟨he, -⟩
    rw [he, List.countP_append, List.countP_singleton]
    cases countedFor i e <;> rfl
  obtain ⟨-, hran, -, -, e, he, ht⟩ | ⟨-, hran, hok, e, he, hcounts⟩ | ⟨-, hran, hok, e, he, ht⟩ :=
    step_cases c st
  · rw [happ e he]
    simp [countedFor, countsAsExecuted_eq_false (e := e) (by rw [ht]; decide), GuardedStep.succeededFor,
      GuardedStep.succeeded, hran]
  · rw [happ e he]
    simp [countedFor, hcounts, he.2, GuardedStep.succeededFor, GuardedStep.succeeded, hran, hok]
  · rw [happ e he]
    simp [countedFor, countsAsExecuted_eq_false (e := e) (by rw [ht]; decide), GuardedStep.succeededFor,
      GuardedStep.succeeded, hok]

/-! ### Sequences of calls -/

theorem mem_guardedSteps {s : GuardedStep σ} : ∀ {cs : List (GuardedCall σ)} {st : RunState σ},
    s ∈ guardedSteps st cs → ∃ c ∈ cs, ∃ st', s = c.step st'
  | c :: cs, st, h => by
      rcases List.mem_cons.mp h with rfl | h
      · exact ⟨c, List.mem_cons_self, st, rfl⟩
      · obtain ⟨c', hc', st', rfl⟩ := mem_guardedSteps h
        exact ⟨c', List.mem_cons_of_mem _ hc', st', rfl⟩

theorem counted_guardedEnd (i : String) : ∀ (cs : List (GuardedCall σ)) (st : RunState σ),
    (guardedEnd st cs).audit.events.countP (countedFor i) =
      st.audit.events.countP (countedFor i) + (guardedSteps st cs).countP (·.succeededFor i) := by
  intro cs
  induction cs with
  | nil => intro st; rfl
  | cons c cs ih =>
    intro st
    have hend : guardedEnd st (c :: cs) = guardedEnd (c.step st).after cs := rfl
    rw [hend, ih, countP_step, guardedSteps, List.countP_cons]
    cases (c.step st).succeededFor i <;> simp
    omega

/-- An action that the log counts as executed stays so, with one last event, and no call for it runs. -/
theorem step_of_lastCounted {c : GuardedCall σ} {st : RunState σ} {i : String} {e : AuditEvent}
    (h : lastCounted st.audit.events i = some e)
    (hgated : c.action.actionId = i → c.action.needsApproval = true) :
    lastCounted (c.step st).after.audit.events i = some e ∧ (c.step st).succeededFor i = false := by
  by_cases hi : c.action.actionId = i
  · have halready : alreadyExecuted c.action st.audit = true := by
      have hneeds : requiresApproval (.tier c.action.riskTier) = true := hgated hi
      rw [alreadyExecuted, hneeds, hi, hasExecuted_of_lastCounted h]; rfl
    obtain ⟨-, hran, -, -, e', he', ht⟩ | ⟨hno, -⟩ | ⟨hno, -⟩ := step_cases c st
    · have hnot : countedFor i e' = false := by
        rw [countedFor, countsAsExecuted_eq_false (by rw [ht]; decide)]; rfl
      rw [he'.1, lastCounted_concat, hnot]
      exact ⟨h, by simp [GuardedStep.succeededFor, GuardedStep.succeeded, hran]⟩
    · rw [hno] at halready; cases halready
    · rw [hno] at halready; cases halready
  · have hother : ∀ e', (c.step st).Appends e' →
        lastCounted (c.step st).after.audit.events i = some e := by
      rintro e' ⟨he', hid⟩
      have hne : e'.actionId ≠ i := by rw [hid]; exact hi
      rw [he', lastCounted_concat, countedFor, beq_false_of_ne hne, Bool.and_false]
      exact h
    have hnot : (c.step st).succeededFor i = false := by
      have hne : (c.step st).actionId ≠ i := hi
      rw [GuardedStep.succeededFor, beq_false_of_ne hne, Bool.and_false]
    obtain ⟨-, -, -, -, e', he', -⟩ | ⟨-, -, -, e', he', -⟩ | ⟨-, -, -, e', he', -⟩ := step_cases c st
    all_goals exact ⟨hother e' he', hnot⟩

/-- From a state that counts the action as executed, it stays with that event throughout. -/
theorem before_of_lastCounted {i : String} {e : AuditEvent} {cs : List (GuardedCall σ)}
    {st : RunState σ} (h : lastCounted st.audit.events i = some e)
    (hgated : ∀ c ∈ cs, c.action.actionId = i → c.action.needsApproval = true) :
    ∀ s ∈ guardedSteps st cs,
      lastCounted s.before.audit.events i = some e ∧ s.succeededFor i = false := by
  induction cs generalizing st with
  | nil => intro s hs; cases hs
  | cons c cs ih =>
    intro s hs
    obtain ⟨hafter, hnot⟩ := step_of_lastCounted h (hgated c List.mem_cons_self)
    rcases List.mem_cons.mp hs with rfl | hs
    · exact ⟨h, hnot⟩
    · exact ih hafter (fun c' hc' => hgated c' (List.mem_cons_of_mem _ hc')) s hs

/-- A success leaves its event as the last one counted. -/
theorem lastCounted_of_succeeded {c : GuardedCall σ} {st : RunState σ}
    (h : (c.step st).succeeded = true) : ∃ e, (c.step st).Appends e ∧
      lastCounted (c.step st).after.audit.events c.action.actionId = some e := by
  obtain ⟨hran, hok⟩ : (c.step st).ran = true ∧ (c.step st).result.ok = true := by
    simpa [GuardedStep.succeeded] using h
  obtain ⟨-, hno, -⟩ | ⟨-, -, -, e, he, hcounts⟩ | ⟨-, -, hno, -⟩ := step_cases c st
  · rw [hno] at hran; cases hran
  · refine ⟨e, he, ?_⟩
    have hid : e.actionId = c.action.actionId := he.2
    rw [he.1, lastCounted_concat, countedFor, hcounts, hid, beq_self_eq_true]
    rfl
  · rw [hno] at hok; cases hok

/-- A failure appends one event that does not count, so the action may be tried again. -/
theorem failsRetryably_of_failed {c : GuardedCall σ} {st : RunState σ} (h : (c.step st).failed = true) :
    (c.step st).FailsRetryably := by
  obtain ⟨hran, hok⟩ : (c.step st).ran = true ∧ (c.step st).result.ok = false := by
    simpa [GuardedStep.failed] using h
  obtain ⟨-, hno, -⟩ | ⟨-, -, hno, -⟩ | ⟨hnot, -, -, e, he, ht⟩ := step_cases c st
  · rw [hno] at hran; cases hran
  · rw [hno] at hok; cases hok
  · have hcounts := countsAsExecuted_eq_false (e := e) (by rw [ht]; decide)
    refine ⟨⟨e, he, ht, hcounts⟩, ?_⟩
    have hevents : (c.step st).after.audit.events = st.audit.events ++ [e] := he.1
    have hsame : (c.step st).after.audit.hasExecuted c.action.actionId =
        st.audit.hasExecuted c.action.actionId := by
      rw [AuditLog.hasExecuted, hevents, AuditLog.hasExecuted]
      simp [hcounts]
    have hcall : (c.step st).call = c := rfl
    rw [hcall, alreadyExecuted, hsame]
    exact hnot

/-- A gated call in a state that counts its action as executed is a replay of that execution. -/
theorem replayOf_of_lastCounted {s : GuardedStep σ} {c : GuardedCall σ} {st : RunState σ} {e : AuditEvent}
    (hs : s.Appends e) (h : lastCounted st.audit.events c.action.actionId = some e)
    (hgated : c.action.needsApproval = true) : s.ReplayOf (c.step st) := by
  obtain ⟨hafter, -⟩ := step_of_lastCounted h fun _ => hgated
  have halready : alreadyExecuted c.action st.audit = true := by
    have hneeds : requiresApproval (.tier c.action.riskTier) = true := hgated
    rw [alreadyExecuted, hneeds, hasExecuted_of_lastCounted h]; rfl
  obtain ⟨-, hran, hworld, hresult, he⟩ | ⟨hno, -⟩ | ⟨hno, -⟩ := step_cases c st
  · refine ⟨hran, hworld, by rw [hresult]; rfl, ⟨e, hs, ?_⟩, he⟩
    rw [hresult, output_replayResult hafter]
  · rw [hno] at halready; cases halready
  · rw [hno] at halready; cases halready

theorem countP_succeededFor_le_one {i : String} {cs : List (GuardedCall σ)} {st : RunState σ}
    (hgated : ∀ c ∈ cs, c.action.actionId = i → c.action.needsApproval = true) :
    (guardedSteps st cs).countP (·.succeededFor i) ≤ 1 := by
  induction cs generalizing st with
  | nil => exact Nat.zero_le _
  | cons c cs ih =>
    have hrest : ∀ c' ∈ cs, c'.action.actionId = i → c'.action.needsApproval = true :=
      fun c' hc' => hgated c' (List.mem_cons_of_mem _ hc')
    rw [guardedSteps, List.countP_cons]
    cases hs : (c.step st).succeededFor i with
    | false => simpa using ih hrest
    | true =>
      obtain ⟨hsucc, hid⟩ : (c.step st).succeeded = true ∧ c.action.actionId = i := by
        simpa [GuardedStep.succeededFor, GuardedStep.actionId, GuardedCall.step] using hs
      obtain ⟨e, -, hlast⟩ := lastCounted_of_succeeded hsucc
      rw [hid] at hlast
      have hzero : (guardedSteps (c.step st).after cs).countP (·.succeededFor i) = 0 :=
        List.countP_eq_zero.mpr fun s hs => by simp [(before_of_lastCounted hlast hrest s hs).2]
      simp [hzero]

theorem DistinctIds.tail {c : GuardedCall σ} {cs : List (GuardedCall σ)} (h : DistinctIds (c :: cs)) :
    DistinctIds cs :=
  fun d hd d' hd' => h d (List.mem_cons_of_mem _ hd) d' (List.mem_cons_of_mem _ hd')

theorem replays_guardedSteps {cs : List (GuardedCall σ)} {st : RunState σ} (hids : DistinctIds cs)
    {i j : ℕ} {s t : GuardedStep σ} (hs : (guardedSteps st cs)[i]? = some s)
    (ht : (guardedSteps st cs)[j]? = some t) (hij : i < j) (hsucc : s.succeeded = true)
    (hid : t.actionId = s.actionId) (hgated : t.call.action.needsApproval = true) : s.ReplayOf t := by
  induction cs generalizing st i j with
  | nil => simp [guardedSteps] at hs
  | cons c cs ih =>
    obtain ⟨j, rfl⟩ : ∃ k, j = k + 1 := Nat.exists_eq_add_one_of_ne_zero (by omega)
    rw [guardedSteps, List.getElem?_cons_succ] at ht
    cases i with
    | succ i =>
      rw [guardedSteps, List.getElem?_cons_succ] at hs
      exact ih hids.tail hs ht (Nat.lt_of_succ_lt_succ hij)
    | zero =>
      obtain rfl : c.step st = s := by simpa [guardedSteps] using hs
      have ht := List.mem_of_getElem? ht
      obtain ⟨e, he, hlast⟩ := lastCounted_of_succeeded hsucc
      obtain ⟨c', hc', st', rfl⟩ := mem_guardedSteps ht
      have hid' : c'.action.actionId = c.action.actionId := hid
      have hsame : ∀ d ∈ cs, d.action.actionId = c.action.actionId → d.action.needsApproval = true := by
        intro d hd hdi
        rw [hids.tail d hd c' hc' (hdi.trans hid'.symm)]
        exact hgated
      have hbefore : lastCounted st'.audit.events c'.action.actionId = some e := by
        rw [hid']; exact (before_of_lastCounted hlast hsame _ ht).1
      exact replayOf_of_lastCounted he hbefore hgated

/-- The log and the tool runs of every sequence of guarded calls agree. -/
theorem executeGuarded_ledgerKept (st : RunState σ) (cs : List (GuardedCall σ))
    (hids : DistinctIds cs) : LedgerKept st cs where
  appends s hs := by
    obtain ⟨c, -, st', rfl⟩ := mem_guardedSteps hs
    obtain ⟨-, -, -, -, e, he, -⟩ | ⟨-, -, -, e, he, -⟩ | ⟨-, -, -, e, he, -⟩ := step_cases c st'
    all_goals exact ⟨e, he⟩
  once c hc hgated := countP_succeededFor_le_one fun c' hc' hid => by rw [hids c' hc' c hc hid]; exact hgated
  replays _ _ _ _ := replays_guardedSteps hids
  failures s hs hfailed := by
    obtain ⟨c, -, st', rfl⟩ := mem_guardedSteps hs
    exact failsRetryably_of_failed hfailed
  counted i := counted_guardedEnd i cs st

/-- A gated action tried three times: its tool is missing at first. -/
def retriedCalls : List (GuardedCall ℕ) :=
  [ToolRegistry.empty, countingRegistry .write, countingRegistry .write].map fun registry =>
    ⟨registry, countingAction "act_1" .write, Principal.anonymous, none⟩

theorem executeGuarded_ledgerKept_retried : LedgerKept ⟨freshLog, 0, []⟩ retriedCalls :=
  executeGuarded_ledgerKept _ _ (by simp [DistinctIds, retriedCalls])

-- it fails, succeeds and is replayed
example : ((guardedSteps ⟨freshLog, 0, []⟩ retriedCalls).map fun s => (s.ran, s.result.ok)) =
    [(true, false), (true, true), (false, true)] := by decide

end Atlas
