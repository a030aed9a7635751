import Atlas.Lib.Run
import Atlas.Execution.Guarded

/-! Several processes, one audit log. Each worker is one call of `execute_guarded` for the same gated
    action; its query of the log, its tool run and its appends are separate atomic steps that interleave
    freely with those of the others. Run alone, the steps of a worker compute `executeGuarded`
    (`exec_solo`). Between a negative query and the append of a success a worker is hot: the log does not
    show yet what it is about to do. The side effect succeeds at most once as long as no query is
    answered no while another worker is hot (`successes_le_one`), and nothing in the code sees to that. -/

namespace Atlas

open LabelledRun

variable {σ W : Type}

/-- Where a worker stands in `execute_guarded`. -/
inductive Phase where
  | idle
  | cleared                 -- `has_executed` answered no
  | ran (r : ActionResult)  -- the tool ran, its event is not appended yet
  | skipping                -- `has_executed` answered yes
  | skipped                 -- the replay event is appended
  | done (r : ActionResult)

/-- The log says nothing yet about a success this worker may have caused or may still cause. -/
def Phase.hot : Phase → Bool
  | .cleared => true
  | .ran r => r.ok
  | _ => false

/-- What the workers share, and where each of them stands. -/
structure Shared (σ W : Type) where
  audit : AuditLog
  world : σ
  phase : W → Phase
  results : List ActionResult := []

/-- The number of tool runs that succeeded. -/
def Shared.successes (s : Shared σ W) : ℕ := s.results.countP (·.ok)

inductive WorkerStep (W : Type) where
  | query (w : W)
  | run (w : W)
  | append (w : W)
  | read (w : W)

section steps
variable [DecidableEq W] (reg : ToolRegistry σ) (action : ProposedAction) (principal : W → Principal)
  (extra : W → Option AuditToolContext)

/-- Worker `w` moves to a phase. -/
def Shared.move (s : Shared σ W) (w : W) (p : Phase) : Shared σ W :=
  { s with phase := Function.update s.phase w p }

/-- `has_executed`, and the branch taken on its answer. -/
def Shared.afterQuery (s : Shared σ W) (w : W) : Shared σ W :=
  s.move w (if alreadyExecuted action s.audit then .skipping else .cleared)

/-- `registry.execute`. -/
def Shared.afterRun (s : Shared σ W) (w : W) : Shared σ W :=
  let (r, world) := reg.execute action (principal w) s.world
  Shared.move { s with world := world, results := s.results ++ [r] } w (.ran r)

/-- `audit.executed` or `audit.failed`. -/
def Shared.afterAppend (s : Shared σ W) (w : W) (r : ActionResult) : Shared σ W :=
  Shared.move { s with audit := recordOutcome s.audit r (extra w) } w (.done r)

/-- `audit.replay_skipped`. -/
def Shared.afterSkip (s : Shared σ W) (w : W) : Shared σ W :=
  Shared.move { s with audit := s.audit.replaySkipped action "already executed" (extra w) } w .skipped

/-- One atomic step of one worker. -/
def workerStep (s : Shared σ W) : WorkerStep W → Option (Shared σ W)
  | .query w => match s.phase w with | .idle => some (s.afterQuery action w) | _ => none
  | .run w => match s.phase w with | .cleared => some (s.afterRun reg action principal w) | _ => none
  | .append w =>
    match s.phase w with
    | .ran r => some (s.afterAppend extra w r)
    | .skipping => some (s.afterSkip action extra w)
    | _ => none
  | .read w =>
    match s.phase w with
    | .skipped => some (s.move w (.done (replayResult action s.audit)))
    | _ => none

/-- All workers before their first step. -/
def startState (W : Type) (audit : AuditLog) (world : σ) : Shared σ W :=
  { audit := audit, world := world, phase := fun _ => .idle }

/-- A query may be answered no only while no worker is hot. -/
def Exclusive (s : Shared σ W) : WorkerStep W → Prop
  | .query _ => alreadyExecuted action s.audit = true ∨ ∀ v, (s.phase v).hot = false
  | _ => True

end steps

/-! ### What one step does -/

section facts
variable [DecidableEq W] {reg : ToolRegistry σ} {action : ProposedAction} {principal : W → Principal}
  {extra : W → Option AuditToolContext} {s s' : Shared σ W}

@[simp] theorem audit_move (s : Shared σ W) (w : W) (p : Phase) : (s.move w p).audit = s.audit := rfl


@[simp] theorem successes_move (s : Shared σ W) (w : W) (p : Phase) :
    (s.move w p).successes = s.successes := rfl

theorem phase_move (s : Shared σ W) (w v : W) (p : Phase) :
    (s.move w p).phase v = if v = w then p else s.phase v :=
  Function.update_apply s.phase w p v

@[simp] theorem phase_move_self (s : Shared σ W) (w : W) (p : Phase) : (s.move w p).phase w = p := by
  rw [phase_move, if_pos rfl]

theorem phase_afterRun (s : Shared σ W) (w v : W) : (s.afterRun reg action principal w).phase v =
    if v = w then .ran (reg.execute action (principal w) s.world).1 else s.phase v :=
  phase_move _ w v _

theorem phase_afterAppend (s : Shared σ W) (w v : W) (r : ActionResult) :
    (s.afterAppend extra w r).phase v = if v = w then .done r else s.phase v :=
  phase_move _ w v _

theorem phase_afterSkip (s : Shared σ W) (w v : W) :
    (s.afterSkip action extra w).phase v = if v = w then .skipped else s.phase v :=
  phase_move _ w v _

/-- The kinds of steps, with the phase each needs and the state it leaves. -/
theorem workerStep_cases {l : WorkerStep W}
    (h : workerStep reg action principal extra s l = some s') :
    (∃ w, l = .query w ∧ s.phase w = .idle ∧ s' = s.afterQuery action w) ∨
    (∃ w, l = .run w ∧ s.phase w = .cleared ∧ s' = s.afterRun reg action principal w) ∨
    (∃ w r, l = .append w ∧ s.phase w = .ran r ∧ s' = s.afterAppend extra w r) ∨
    (∃ w, l = .append w ∧ s.phase w = .skipping ∧ s' = s.afterSkip action extra w) ∨
    ∃ w, l = .read w ∧ s.phase w = .skipped ∧ s' = s.move w (.done (replayResult action s.audit)) := by
  cases l with
  | query w =>
    simp only [workerStep] at h
    split at h
    next hp => cases h; exact Or.inl ⟨w, rfl, hp, rfl⟩
    next => cases h
  | run w =>
    simp only [workerStep] at h
    split at h
    next hp => cases h; exact Or.inr (Or.inl ⟨w, rfl, hp, rfl⟩)
    next => cases h
  | append w =>
    simp only [workerStep] at h
    split at h
    next r hp => cases h; exact Or.inr (Or.inr (Or.inl ⟨w, r, rfl, hp, rfl⟩))
    next hp => cases h; exact Or.inr (Or.inr (Or.inr (Or.inl ⟨w, rfl, hp, rfl⟩)))
    next => cases h
  | read w =>
    simp only [workerStep] at h
    split at h
    next hp => cases h; exact Or.inr (Or.inr (Or.inr (Or.inr ⟨w, rfl, hp, rfl⟩)))
    next => cases h

/-- The uninterrupted steps of a worker whose query is answered yes. -/
theorem exec_replay {w : W} (hidle : s.phase w = .idle) (hex : alreadyExecuted action s.audit = true) :
    exec (workerStep reg action principal extra) s [.query w, .append w, .read w] =
      some (((s.afterQuery action w).afterSkip action extra w).move w
        (.done (replayResult action ((s.afterQuery action w).afterSkip action extra w).audit))) := by
  have hq : (s.afterQuery action w).phase w = .skipping := by
    rw [Shared.afterQuery, if_pos hex, phase_move_self]
  have ha : ((s.afterQuery action w).afterSkip action extra w).phase w = .skipped := by
    rw [phase_afterSkip, if_pos rfl]
  simp only [exec, workerStep, hidle, hq, ha, Option.bind_some]

/-- The uninterrupted steps of a worker whose query is answered no. -/
theorem exec_fresh {w : W} (hidle : s.phase w = .idle) (hex : alreadyExecuted action s.audit = false) :
    exec (workerStep reg action principal extra) s [.query w, .run w, .append w] =
      some (((s.afterQuery action w).afterRun reg action principal w).afterAppend extra w
        (reg.execute action (principal w) s.world).1) := by
  have hq : (s.afterQuery action w).phase w = .cleared := by
    rw [Shared.afterQuery, hex, phase_move_self]; rfl
  have hr : ((s.afterQuery action w).afterRun reg action principal w).phase w =
      .ran (reg.execute action (principal w) s.world).1 := by
    rw [phase_afterRun, if_pos rfl]; rfl
  simp only [exec, workerStep, hidle, hq, hr, Option.bind_some]

/-- The steps of one worker, taken without interruption, are `execute_guarded`. -/
theorem exec_solo {w : W} (hidle : s.phase w = .idle) (calls : List (Call σ)) :
    ∃ ls s', exec (workerStep reg action principal extra) s ls = some s' ∧
      let (result, st) := executeGuarded reg action (principal w) (extra w) ⟨s.audit, s.world, calls⟩
      s'.phase w = .done result ∧ s'.audit = st.audit ∧ s'.world = st.world := by
  cases hex : alreadyExecuted action s.audit with
  | true =>
    refine ⟨_, _, exec_replay hidle hex, ?_⟩
    simp only [executeGuarded, hex, if_true, phase_move_self]
    exact ⟨rfl, rfl, rfl⟩
  | false =>
    refine ⟨_, _, exec_fresh hidle hex, ?_⟩
    simp only [executeGuarded, hex, Bool.false_eq_true, if_false, phase_afterAppend, if_true]
    exact ⟨trivial, rfl, rfl⟩

end facts

/-! ### At most one success -/

/-- What holds between the steps of a run in which queries are exclusive. -/
structure AtMostOnce (action : ProposedAction) (s : Shared σ W) : Prop where
  /-- A result under way is one for the action. -/
  own : ∀ w r, s.phase w = .ran r → r.actionId = action.actionId
  /-- At most one worker is hot, -/
  unique : ∀ v w, (s.phase v).hot = true → (s.phase w).hot = true → v = w
  /-- and none once the log shows the success. -/
  quiet : s.audit.hasExecuted action.actionId = true → ∀ w, (s.phase w).hot = false
  /-- A success is shown by the log or about to be appended. -/
  shown : s.successes ≠ 0 → s.audit.hasExecuted action.actionId = true ∨
    ∃ w r, s.phase w = .ran r ∧ r.ok = true
  once : s.successes ≤ 1

theorem atMostOnce_start (action : ProposedAction) (audit : AuditLog) (world : σ) :
    AtMostOnce action (startState W audit world) := by
  refine ⟨?_, ?_, ?_, ?_, ?_⟩ <;> simp [startState, Shared.successes, Phase.hot]

section invariant
variable [DecidableEq W] {reg : ToolRegistry σ} {action : ProposedAction} {principal : W → Principal}
  {extra : W → Option AuditToolContext} {s s' : Shared σ W}

/-- A worker that turns cold and leaves the log's answer alone keeps the invariant, unless it was about
    to append a success. -/
theorem AtMostOnce.cold (hs : AtMostOnce action s) {w : W} {p : Phase} (audit : AuditLog)
    (hcold : p.hot = false) (hnot : ∀ r, p ≠ .ran r)
    (hw : ∀ r, s.phase w = .ran r → r.ok = true → audit.hasExecuted action.actionId = true)
    (hlog : s.audit.hasExecuted action.actionId = true → audit.hasExecuted action.actionId = true)
    (hquiet : audit.hasExecuted action.actionId = true → ∀ v, v ≠ w → (s.phase v).hot = false) :
    AtMostOnce action (Shared.move { s with audit := audit } w p) := by
  have hhot : ∀ v, ((Shared.move { s with audit := audit } w p).phase v).hot = true →
      v ≠ w ∧ (s.phase v).hot = true := by
    intro v hv
    rw [phase_move] at hv
    split at hv
    next => rw [hcold] at hv; cases hv
    next hne => exact ⟨hne, hv⟩
  refine ⟨?_, ?_, ?_, ?_, hs.once⟩
  · intro v r hv
    rw [phase_move] at hv
    split at hv
    next => exact absurd hv (hnot r)
    next => exact hs.own v r hv
  · intro v v' hv hv'
    exact hs.unique v v' (hhot v hv).2 (hhot v' hv').2
  · intro hex v
    rw [← Bool.not_eq_true]
    intro hv
    obtain ⟨hne, hv⟩ := hhot v hv
    rw [hquiet hex v hne] at hv
    cases hv
  · intro hsucc
    rcases hs.shown hsucc with hex | ⟨v, r, hv, hr⟩
    · exact Or.inl (hlog hex)
    · by_cases hvw : v = w
      · subst hvw
        exact Or.inl (hw r hv hr)
      · exact Or.inr ⟨v, r, by rw [phase_move, if_neg hvw]; exact hv, hr⟩

theorem AtMostOnce.query (hs : AtMostOnce action s) (hgated : action.needsApproval = true) {w : W}
    (hidle : s.phase w = .idle) (hok : Exclusive action s (.query w)) :
    AtMostOnce action (s.afterQuery action w) := by
  have hidle' : ∀ r, s.phase w ≠ .ran r := by intro r h; rw [hidle] at h; cases h
  rw [Shared.afterQuery]
  cases hex : alreadyExecuted action s.audit with
  | true =>
    exact hs.cold s.audit rfl (by intro r h; cases h) (fun r h => absurd h (hidle' r)) id
      (fun hex v _ => hs.quiet hex v)
  | false =>
    have hfresh : s.audit.hasExecuted action.actionId = false := by
      rw [ProposedAction.needsApproval] at hgated
      simpa [alreadyExecuted, hgated] using hex
    have hcold : ∀ v, (s.phase v).hot = false := by
      rcases hok with h | h
      · rw [hex] at h; cases h
      · exact h
    have hhot : ∀ v, ((s.move w .cleared).phase v).hot = true → v = w := by
      intro v hv
      rw [phase_move] at hv
      split at hv
      next h => exact h
      next h => rw [hcold v] at hv; cases hv
    refine ⟨?_, ?_, ?_, ?_, hs.once⟩
    · intro v r hv
      rw [if_neg (by decide), phase_move] at hv
      split at hv
      next => cases hv
      next => exact hs.own v r hv
    · intro v v' hv hv'
      exact (hhot v hv).trans (hhot v' hv').symm
    · intro h
      rw [if_neg (by decide), audit_move, hfresh] at h
      cases h
    · intro hsucc
      rcases hs.shown hsucc with h | ⟨v, r, hv, hr⟩
      · rw [hfresh] at h; cases h
      · have := hcold v
        rw [hv, Phase.hot, hr] at this
        cases this

theorem AtMostOnce.run (hs : AtMostOnce action s) {w : W} (hcleared : s.phase w = .cleared) :
    AtMostOnce action (s.afterRun reg action principal w) := by
  have hhot : (s.phase w).hot = true := by rw [hcleared]; rfl
  have hfresh : s.audit.hasExecuted action.actionId ≠ true := by
    intro h
    rw [hs.quiet h w] at hhot
    cases hhot
  have hzero : s.successes = 0 := by
    by_contra hne
    rcases hs.shown hne with h | ⟨v, r, hv, hr⟩
    · exact hfresh h
    · have hvw : v = w := hs.unique v w (by rw [hv]; exact hr) hhot
      rw [hvw, hcleared] at hv
      cases hv
  have hothers : ∀ v, v ≠ w → (s.phase v).hot = false := by
    intro v hne
    rw [← Bool.not_eq_true]
    exact fun hv => hne (hs.unique v w hv hhot)
  have hcount : (s.afterRun reg action principal w).successes =
      if (reg.execute action (principal w) s.world).1.ok then 1 else 0 := by
    rw [Shared.afterRun, successes_move, Shared.successes, List.countP_append, ← Shared.successes, hzero,
      List.countP_singleton, Nat.zero_add]
  refine ⟨?_, ?_, ?_, ?_, ?_⟩
  · intro v r hv
    rw [phase_afterRun] at hv
    split at hv
    next => cases hv; exact ToolRegistry.actionId_execute reg action _ _
    next => exact hs.own v r hv
  · have honly : ∀ v, ((s.afterRun reg action principal w).phase v).hot = true → v = w := by
      intro v hv
      by_contra hne
      rw [phase_afterRun, if_neg hne, hothers v hne] at hv
      cases hv
    intro v v' hv hv'
    exact (honly v hv).trans (honly v' hv').symm
  · exact fun h => absurd h hfresh
  · intro hsucc
    refine Or.inr ⟨w, _, by rw [phase_afterRun, if_pos rfl], ?_⟩
    by_contra hno
    rw [hcount, if_neg hno] at hsucc
    exact hsucc rfl
  · rw [hcount]
    split <;> omega

/-- One step keeps the invariant if queries are exclusive. -/
theorem atMostOnce_step (hgated : action.needsApproval = true) {l : WorkerStep W}
    (hs : AtMostOnce action s) (hok : Exclusive action s l)
    (hstep : workerStep reg action principal extra s l = some s') : AtMostOnce action s' := by
  rcases workerStep_cases hstep with ⟨w, rfl, hp, rfl⟩ | ⟨w, rfl, hp, rfl⟩ | ⟨w, r, rfl, hp, rfl⟩ |
    ⟨w, rfl, hp, rfl⟩ | ⟨w, rfl, hp, rfl⟩
  · exact hs.query hgated hp hok
  · exact hs.run hp
  · have hlog : (recordOutcome s.audit r (extra w)).hasExecuted action.actionId =
        (s.audit.hasExecuted action.actionId || r.ok) := by
      rw [hasExecuted_recordOutcome, hs.own w r hp, beq_self_eq_true, Bool.and_true]
    refine hs.cold _ rfl (by intro r h; cases h) ?_ ?_ ?_
    · intro r' hr' hok'
      rw [hp, Phase.ran.injEq] at hr'
      rw [hlog, hr', hok', Bool.or_true]
    · intro h
      rw [hlog, h, Bool.true_or]
    · intro h v hne
      rw [hlog, Bool.or_eq_true] at h
      rcases h with h | h
      · exact hs.quiet h v
      · rw [← Bool.not_eq_true]
        exact fun hv => hne (hs.unique v w hv (by rw [hp]; exact h))
  · refine hs.cold _ rfl (by intro r h; cases h) (fun r h => ?_) (fun h => ?_) (fun h v _ => ?_)
    · rw [hp] at h; cases h
    · rw [AuditLog.hasExecuted_replaySkipped]; exact h
    · rw [AuditLog.hasExecuted_replaySkipped] at h; exact hs.quiet h v
  · refine hs.cold s.audit rfl (by intro r h; cases h) (fun r h => ?_) id
      (fun h v _ => hs.quiet h v)
    rw [hp] at h; cases h

end invariant

/-- In every run of any number of workers whose negative queries find no hot worker, the tool succeeds
    at most once. -/
theorem successes_le_one [DecidableEq W] (reg : ToolRegistry σ) (action : ProposedAction)
    (principal : W → Principal) (extra : W → Option AuditToolContext) (audit : AuditLog) (world : σ)
    (hgated : action.needsApproval = true) (ls : List (WorkerStep W)) (s : Shared σ W)
    (hrun : exec (workerStep reg action principal extra) (startState W audit world) ls = some s)
    (hok : Respects (workerStep reg action principal extra) (Exclusive action)
      (startState W audit world) ls) : s.successes ≤ 1 :=
  (invariant_of_respects (fun _ _ _ hs hok hstep => atMostOnce_step hgated hs hok hstep)
    (atMostOnce_start action audit world) hok hrun).once

/-! ### Two workers -/

/-- Two workers of one admin, on the counting tool. -/
def twoWorkers : Shared ℕ Bool → WorkerStep Bool → Option (Shared ℕ Bool) :=
  workerStep (countingRegistry .send) (countingAction "a1" .send)
    (fun _ => { userId := "alice", roles := ["admin"] }) (fun _ => none)

/-- One after the other: the second worker replays. -/
theorem successes_sequential : ∃ s, exec twoWorkers (startState Bool freshLog 0)
    [.query true, .run true, .append true, .query false, .append false, .read false] = some s ∧
    s.successes ≤ 1 ∧ s.world = 1 := by
  refine ⟨_, rfl, successes_le_one (countingRegistry .send) (countingAction "a1" .send)
    (fun _ => { userId := "alice", roles := ["admin"] }) (fun _ => none) freshLog 0 rfl
    [.query true, .run true, .append true, .query false, .append false, .read false] _ rfl ?_, rfl⟩
  exact .cons rfl (Or.inr fun _ => rfl) (.cons rfl trivial (.cons rfl trivial
    (.cons rfl (Or.inl rfl) (.cons rfl trivial (.cons rfl trivial .nil)))))

/-- Both workers query before either appends: the side effect happens twice. -/
theorem successes_interleaved : ¬∀ ls s,
    exec twoWorkers (startState Bool freshLog 0) ls = some s → s.successes ≤ 1 := by
  intro h
  have := h [.query true, .query false, .run true, .run false, .append true, .append false] _ rfl
  exact absurd this (by decide)

end Atlas
