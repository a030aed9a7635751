import Atlas.Interface.Approval

/-! One call of `gate_resume` among any number of other callers of the resume lock. It acquires the lock of
    its thread, reads the checkpoint under it, and either returns the decisions with the lease or, on
    whatever failure, takes the three steps of a release before it raises. Only the owner of a paused
    thread gets past it; anybody else is refused in one way, however far the thread is; and a call that
    raised has left the lock table to the other callers alone. -/

namespace Atlas

open LabelledRun Parties

/-- What ends the `try` block: a refusal, or any other exception. -/
inductive GateError where
  | http (e : HTTPException)
  | other (e : PyError)

/-- The `try` block: what the checkpointer answers or raises, the checks, and the payload, whose construction
    may raise as well. -/
def gateDecisions (principal : Principal) (body : ApproveRequest) (read : Except PyError ThreadSnapshot)
    (raises : Option PyError) : Except GateError Json :=
  match read with
  | .error e => .error (.other e)
  | .ok snapshot =>
    match gateResume snapshot principal body, raises with
    | .error e, _ => .error (.http e)
    | .ok _, some e => .error (.other e)
    | .ok decisions, none => .ok decisions

/-- Where the call stands, with the number of its lease and what ended the `try` block. -/
inductive GatePhase where
  | called
  | waiting (i : ℕ)
  | checking (i : ℕ)
  | failed (i : ℕ) (e : GateError)     -- in the `except` clause, before the release
  | releasing (i : ℕ) (e : GateError)  -- `_released` is set
  | unlocked (i : ℕ) (e : GateError)   -- the lock is released, the count not dropped yet
  | raised (i : ℕ) (e : GateError)
  | returned (i : ℕ) (decisions : Json)

/-- The call's lease, and how far it is: what a returned lease does is the caller's business. -/
def GatePhase.lease? : GatePhase → Option (ℕ × LeasePhase)
  | .called | .returned _ _ => none
  | .waiting i => some (i, .waiting)
  | .checking i | .failed i _ => some (i, .held)
  | .releasing i _ => some (i, .flagged)
  | .unlocked i _ => some (i, .unlocked)
  | .raised i _ => some (i, .done)

/-- How the `try` block ended. -/
def GatePhase.outcome? : GatePhase → Option (Except GateError Json)
  | .called | .waiting _ | .checking _ => none
  | .failed _ e | .releasing _ e | .unlocked _ e | .raised _ e => some (.error e)
  | .returned _ decisions => some (.ok decisions)

structure GateRun where
  locks : LockTable
  phase : GatePhase := .called

/-- The call's own steps on the lock, its `try` block with what comes up in it, and the steps of the other
    callers. -/
inductive GateStep where
  | proceed
  | check (read : Except PyError ThreadSnapshot) (raises : Option PyError)
  | other (l : LockStep)

section system
variable (thread : String) (principal : Principal) (body : ApproveRequest)

/-- The next step of the call on the lock. -/
def GateRun.proceed (s : GateRun) : Option GateRun :=
  match s.phase with
  | .called => some ⟨s.locks.enter thread, .waiting s.locks.leases.length⟩
  | .waiting i => (lockStep s.locks (.lock i)).map fun locks => ⟨locks, .checking i⟩
  | .failed i e => (lockStep s.locks (.release i)).map fun locks => ⟨locks, .releasing i e⟩
  | .releasing i e => (lockStep s.locks (.unlock i)).map fun locks => ⟨locks, .unlocked i e⟩
  | .unlocked i e => (lockStep s.locks (.decrement i)).map fun locks => ⟨locks, .raised i e⟩
  | .checking _ | .raised _ _ | .returned _ _ => none

/-- The `try` block, under the lock. -/
def GateRun.check (s : GateRun) (read : Except PyError ThreadSnapshot) (raises : Option PyError) :
    Option GateRun :=
  match s.phase with
  | .checking i =>
    match gateDecisions principal body read raises with
    | .ok decisions => some ⟨s.locks, .returned i decisions⟩
    | .error e => some ⟨s.locks, .failed i e⟩
  | _ => none

/-- One step of the system: the lease is the call's own until it is returned. -/
def gateStep (s : GateRun) : GateStep → Option GateRun
  | .proceed => s.proceed thread
  | .check read raises => s.check principal body read raises
  | .other l =>
    if l.caller?.isSome ∧ l.caller? = s.phase.lease?.map (·.1) then none
    else (lockStep s.locks l).map fun locks => { s with locks := locks }

end system

/-! ### The invariant -/

/-- The lock table is what its callers make it, and the call's lease is where its phase says. -/
structure GateInv (thread : String) (s : GateRun) : Prop where
  locks : LockInv s.locks
  lease : ∀ i p, s.phase.lease? = some (i, p) →
    ∃ x, s.locks.leases[i]? = some x ∧ x.threadId = thread ∧ x.phase = p

section lockSteps
variable {s s' : LockTable} {i : ℕ} {x : ResumeLease}

/-- A waiting caller that takes the lock holds the lease. -/
theorem held_of_lock (hs : lockStep s (.lock i) = some s') (hx : s.leases[i]? = some x) :
    s'.leases[i]? = some { x with phase := .held } := by
  simp only [lockStep, hx, Option.bind_some, LockTable.lock] at hs
  split at hs
  next =>
    cases hs
    rw [LockTable.put, get_move hx, if_pos rfl]
  next => cases hs

/-- The three steps of a release are never blocked, and end with the lease done. -/
theorem release_enabled (hx : s.leases[i]? = some x) (hp : x.phase = .held) :
    ∃ s', lockStep s (.release i) = some s' ∧ s'.leases[i]? = some { x with phase := .flagged } := by
  refine ⟨s.put i x .flagged (s.object x.entry), ?_, ?_⟩
  · simp only [lockStep, hx, Option.bind_some, LockTable.release, hp]
  · rw [LockTable.put, get_move hx, if_pos rfl]

theorem unlock_enabled (h : LockInv s) (hx : s.leases[i]? = some x) (hp : x.phase = .flagged) :
    ∃ s', lockStep s (.unlock i) = some s' ∧ s'.leases[i]? = some { x with phase := .unlocked } := by
  have hlocked := h.locked_of_owns hx (by rw [hp]; rfl)
  refine ⟨s.put i x .unlocked { s.object x.entry with locked := false }, ?_, ?_⟩
  · simp only [lockStep, hx, Option.bind_some, LockTable.unlock, hp, hlocked, if_true]
  · rw [LockTable.put, get_move hx, if_pos rfl]

theorem decrement_enabled (hx : s.leases[i]? = some x) (hp : x.phase = .unlocked) :
    ∃ s', lockStep s (.decrement i) = some s' ∧ s'.leases[i]? = some { x with phase := .done } := by
  obtain ⟨s', hs'⟩ : ∃ s', s.decrement i x = some s' := by
    simp only [LockTable.decrement, hp]
    split <;> exact ⟨_, rfl⟩
  refine ⟨s', ?_, ?_⟩
  · simp only [lockStep, hx, Option.bind_some, hs']
  · rw [leases_decrement hs', get_move hx, if_pos rfl]

/-- A waiting caller takes the lock when nobody owns it. -/
theorem lock_enabled (h : LockInv s) (hx : s.leases[i]? = some x) (hp : x.phase = .waiting)
    (hfree : s.leases.countP (·.ownsFor x.threadId) = 0) : ∃ s', lockStep s (.lock i) = some s' := by
  have hst := h.stored x (List.mem_of_getElem? hx) (by rw [hp]; rfl)
  have hword := h.word _ _ hst
  rw [hfree, Bool.toNat_eq_zero] at hword
  refine ⟨s.put i x .held { s.object x.entry with locked := true }, ?_⟩
  simp only [lockStep, hx, Option.bind_some, LockTable.lock, hp, hword, and_self, if_true]

end lockSteps

/-- The `try` block ends in the lease, returned or about to be released. -/
theorem check_cases {principal : Principal} {body : ApproveRequest} {s s' : GateRun}
    {read : Except PyError ThreadSnapshot} {raises : Option PyError}
    (h : s.check principal body read raises = some s') : ∃ i, s.phase = .checking i ∧
      ((∃ decisions, gateDecisions principal body read raises = .ok decisions ∧
          s' = ⟨s.locks, .returned i decisions⟩) ∨
        ∃ e, gateDecisions principal body read raises = .error e ∧ s' = ⟨s.locks, .failed i e⟩) := by
  unfold GateRun.check at h
  split at h
  next i hphase =>
    refine ⟨i, hphase, ?_⟩
    split at h
    next decisions hok => cases h; exact Or.inl ⟨decisions, hok, rfl⟩
    next e herror => cases h; exact Or.inr ⟨e, herror, rfl⟩
  next => cases h

namespace GateInv

variable {thread : String} {principal : Principal} {body : ApproveRequest} {s s' : GateRun}

theorem called {locks : LockTable} (h : LockInv locks) : GateInv thread ⟨locks, .called⟩ where
  locks := h
  lease _ _ hp := by cases hp

/-- The lease moves on by one step of the lock. -/
theorem moved {locks locks' : LockTable} {l : LockStep} {phase : GatePhase} {i : ℕ} {x : ResumeLease}
    (h : LockInv locks) (hmove : ∃ t, lockStep locks l = some t ∧ t.leases[i]? = some x)
    (hs : lockStep locks l = some locks') (ht : x.threadId = thread)
    (hphase : phase.lease? = some (i, x.phase)) : GateInv thread ⟨locks', phase⟩ where
  locks := h.step hs
  lease j p hp := by
    obtain ⟨t, hl, hx⟩ := hmove
    obtain rfl : t = locks' := Option.some.inj (hl.symm.trans hs)
    rw [hphase, Option.some.injEq, Prod.mk.injEq] at hp
    obtain ⟨rfl, rfl⟩ := hp
    exact ⟨x, hx, ht, rfl⟩

/-- A step of the call on the lock. -/
theorem proceed (h : GateInv thread s) (hs : s.proceed thread = some s') : GateInv thread s' := by
  obtain ⟨locks, phase⟩ := s
  cases phase with
  | called =>
    cases hs
    exact moved h.locks (l := .enter thread) ⟨_, rfl, by rw [leases_enter, List.getElem?_concat_length]⟩
      rfl rfl rfl
  | waiting i =>
    obtain ⟨locks', hl, rfl⟩ := Option.map_eq_some_iff.mp hs
    obtain ⟨x, hx, ht, -⟩ := h.lease i _ rfl
    exact moved h.locks ⟨_, hl, held_of_lock hl hx⟩ hl ht rfl
  | failed i e =>
    obtain ⟨locks', hl, rfl⟩ := Option.map_eq_some_iff.mp hs
    obtain ⟨x, hx, ht, hp⟩ := h.lease i _ rfl
    exact moved h.locks (release_enabled hx hp) hl ht rfl
  | releasing i e =>
    obtain ⟨locks', hl, rfl⟩ := Option.map_eq_some_iff.mp hs
    obtain ⟨x, hx, ht, hp⟩ := h.lease i _ rfl
    exact moved h.locks (unlock_enabled h.locks hx hp) hl ht rfl
  | unlocked i e =>
    obtain ⟨locks', hl, rfl⟩ := Option.map_eq_some_iff.mp hs
    obtain ⟨x, hx, ht, hp⟩ := h.lease i _ rfl
    exact moved h.locks (decrement_enabled hx hp) hl ht rfl
  | checking i => cases hs
  | raised i e => cases hs
  | returned i decisions => cases hs

theorem step {l : GateStep} (h : GateInv thread s) (hs : gateStep thread principal body s l = some s') :
    GateInv thread s' := by
  cases l with
  | proceed => exact h.proceed hs
  | check read raises =>
    obtain ⟨i, hphase, hend⟩ := check_cases hs
    obtain ⟨decisions, -, rfl⟩ | ⟨e, -, rfl⟩ := hend
    · exact ⟨h.locks, fun _ _ hnone => by cases hnone⟩
    · refine ⟨h.locks, fun j p hp => h.lease j p ?_⟩
      rw [hphase]
      exact hp
  | other l =>
    simp only [gateStep] at hs
    split at hs
    next => cases hs
    next hown =>
      obtain ⟨locks', hl, rfl⟩ := Option.map_eq_some_iff.mp hs
      refine ⟨h.locks.step hl, fun i p hp => ?_⟩
      obtain ⟨x, hx, ht, hxp⟩ := h.lease i p hp
      refine ⟨x, get_of_lockStep hx (fun hl => hown ⟨?_, ?_⟩) hl, ht, hxp⟩
      · rw [hl]; rfl
      · rw [hl, hp]; rfl

/-- Along a call that starts among the callers of a run of the lock. -/
theorem of_exec {before : List LockStep} {locks : LockTable} {ls : List GateStep}
    (hbefore : exec lockStep {} before = some locks)
    (hrun : exec (gateStep thread principal body) ⟨locks, .called⟩ ls = some s) : GateInv thread s :=
  invariant_of_exec (fun _ _ _ h hs => h.step hs)
    (called (invariant_of_exec (fun _ _ _ h hs => LockInv.step h hs) LockInv.initial hbefore)) hrun

end GateInv

/-! ### What the `try` block lets through -/

/-- The caller is somebody, and who the checkpoint says owns the thread. -/
structure OwnsThread (owner : Option Principal) (caller : Principal) : Prop where
  known : caller ≠ Principal.anonymous
  same : ∃ o, owner = some o ∧ o.userId = caller.userId ∧ o.orgId = caller.orgId

theorem verifyThreadOwner_eq_ok {owner : Option Principal} {caller : Principal} :
    verifyThreadOwner owner caller = .ok () ↔ OwnsThread owner caller ∧ owner ≠ some Principal.anonymous := by
  unfold verifyThreadOwner
  split
  next hanon =>
    refine iff_of_false (by simp) ?_
    rintro ⟨howns, hne⟩
    rcases hanon with hcaller | howner
    · exact howns.known hcaller
    · exact hne howner
  next hanon =>
    rw [not_or] at hanon
    cases owner with
    | none => exact iff_of_false (by simp) (fun h => by obtain ⟨o, ho, -⟩ := h.1.same; cases ho)
    | some o =>
      simp only
      split
      next hne =>
        refine iff_of_false (by simp) fun h => ?_
        obtain ⟨o', ho, huser, horg⟩ := h.1.same
        cases ho
        rcases hne with hne | hne
        · exact hne huser
        · exact hne horg
      next heq =>
        rw [not_or, not_not, not_not] at heq
        exact iff_of_true rfl ⟨⟨hanon.1, o, rfl, heq.1, heq.2⟩, hanon.2⟩

/-- Any refusal of a caller is one 403, which tells nothing but whether somebody anonymous is involved. -/
theorem verifyThreadOwner_eq_error {owner : Option Principal} {caller : Principal}
    (h : verifyThreadOwner owner caller ≠ .ok ()) :
    ∃ detail, verifyThreadOwner owner caller = .error ⟨403, detail⟩ := by
  unfold verifyThreadOwner at h ⊢
  split
  next => exact ⟨_, rfl⟩
  next hanon =>
    rw [if_neg hanon] at h
    cases owner with
    | none => exact ⟨_, rfl⟩
    | some o =>
      simp only at h ⊢
      split
      next => exact ⟨_, rfl⟩
      next heq => exact absurd (if_neg heq) h

theorem gateChecks_eq_ok {snapshot : ThreadSnapshot} {state : AgentState} {caller : Principal}
    (hvalues : snapshot.values = some state) : gateChecks snapshot.toStateSnapshot caller = .ok () ↔
      (OwnsThread state.principal caller ∧ state.principal ≠ some Principal.anonymous) ∧
        isAwaitingApproval snapshot.toStateSnapshot = true := by
  have howner : threadOwner snapshot.toStateSnapshot = state.principal := by
    rw [threadOwner, ThreadSnapshot.toStateSnapshot, hvalues]
    rfl
  rw [← verifyThreadOwner_eq_ok, gateChecks, if_neg (by rw [ThreadSnapshot.toStateSnapshot, hvalues]; simp),
    howner]
  cases verifyThreadOwner state.principal caller with
  | error e => simp
  | ok u =>
    simp only [true_and]
    split
    next h => simp [h]
    next h => simp [h]

section decisions
variable {principal : Principal} {body : ApproveRequest} {read : Except PyError ThreadSnapshot}
    {raises : Option PyError}

/-- Past the `try` block the caller owns the thread, which awaits approval. -/
theorem gateDecisions_eq_ok {decisions : Json} :
    gateDecisions principal body read raises = .ok decisions ↔
      ∃ snapshot state, read = .ok snapshot ∧ snapshot.values = some state ∧
        OwnsThread state.principal principal ∧ state.principal ≠ some Principal.anonymous ∧
        isAwaitingApproval snapshot.toStateSnapshot = true ∧ raises = none ∧
        decisions = decisionPayload body snapshot principal := by
  constructor
  · intro h
    unfold gateDecisions at h
    split at h
    next => cases h
    next snapshot =>
      split at h
      next => cases h
      next => cases h
      next hgate =>
        cases h
        simp only [gateResume, Fallible.bind_eq_ok, Fallible.pure_eq_ok] at hgate
        obtain ⟨_, hchecks, rfl⟩ := hgate
        obtain ⟨state, hvalues⟩ := values_of_gateChecks hchecks
        obtain ⟨⟨howns, hanon⟩, hawaiting⟩ := (gateChecks_eq_ok hvalues).mp hchecks
        exact ⟨snapshot, state, rfl, hvalues, howns, hanon, hawaiting, rfl, rfl⟩
  · rintro ⟨snapshot, state, rfl, hvalues, howns, hanon, hawaiting, rfl, rfl⟩
    have hchecks := (gateChecks_eq_ok hvalues).mpr ⟨⟨howns, hanon⟩, hawaiting⟩
    simp only [gateDecisions, gateResume, hchecks]
    rfl

/-- A caller that does not own the thread is told one thing, whatever else there is to see of the thread. -/
theorem gateDecisions_refused {owner : Option Principal} (howns : ¬OwnsThread owner principal) :
    ∃ detail, ∀ body snapshot state raises, snapshot.values = some state → state.principal = owner →
      gateDecisions principal body (.ok snapshot) raises = .error (.http ⟨403, detail⟩) := by
  obtain ⟨detail, hdetail⟩ := verifyThreadOwner_eq_error
    (fun h => howns (verifyThreadOwner_eq_ok.mp h).1)
  refine ⟨detail, fun body snapshot state raises hvalues howner => ?_⟩
  have hchecks : gateChecks snapshot.toStateSnapshot principal = .error ⟨403, detail⟩ := by
    simp [gateChecks, ThreadSnapshot.toStateSnapshot, threadOwner, hvalues, howner, hdetail]
  simp only [gateDecisions, gateResume, hchecks]
  rfl

end decisions

section runs
variable {thread : String} {principal : Principal} {body : ApproveRequest} {s s' : GateRun}

/-- A step leaves how the `try` block ended, or is the one that ends it. -/
theorem outcome_step {l : GateStep} (hs : gateStep thread principal body s l = some s') :
    s'.phase.outcome? = s.phase.outcome? ∨ ∃ read raises, l = .check read raises ∧
      s'.phase.outcome? = some (gateDecisions principal body read raises) := by
  cases l with
  | proceed =>
    obtain ⟨locks, phase⟩ := s
    cases phase with
    | called => cases hs; exact Or.inl rfl
    | waiting i | failed i e | releasing i e | unlocked i e =>
      obtain ⟨locks', -, rfl⟩ := Option.map_eq_some_iff.mp hs
      exact Or.inl rfl
    | checking i | raised i e | returned i decisions => cases hs
  | check read raises =>
    refine Or.inr ⟨read, raises, rfl, ?_⟩
    obtain ⟨i, -, ⟨decisions, hok, rfl⟩ | ⟨e, herror, rfl⟩⟩ := check_cases hs
    · rw [hok]; rfl
    · rw [herror]; rfl
  | other l =>
    simp only [gateStep] at hs
    split at hs
    next => cases hs
    next =>
      obtain ⟨locks', -, rfl⟩ := Option.map_eq_some_iff.mp hs
      exact Or.inl rfl

/-- How the call ended, if it did, is what one of the steps decided. -/
def GateRun.DecidedIn (principal : Principal) (body : ApproveRequest) (ls : List GateStep) (s : GateRun) :
    Prop :=
  ∀ o, s.phase.outcome? = some o →
    ∃ read raises, .check read raises ∈ ls ∧ gateDecisions principal body read raises = o

theorem decidedIn_of_exec {locks : LockTable} {ls : List GateStep}
    (hrun : exec (gateStep thread principal body) ⟨locks, .called⟩ ls = some s) :
    s.DecidedIn principal body ls := by
  have hkeep : ∀ s l s', s.DecidedIn principal body ls → l ∈ ls →
      gateStep thread principal body s l = some s' → s'.DecidedIn principal body ls := by
    intro s l s' hdecided hl hs o ho
    obtain hsame | ⟨read, raises, rfl, hend⟩ := outcome_step hs
    · exact hdecided o (hsame ▸ ho)
    · exact ⟨read, raises, hl, Option.some.inj (hend.symm.trans ho)⟩
  have hcalled : GateRun.DecidedIn principal body ls ⟨locks, .called⟩ := by
    intro o ho
    cases ho
  exact invariant_of_respects hkeep hcalled (respects_of_forall (fun _ hl => hl) _) hrun

end runs

/-! ### What the lock table shows -/

/-- The entry that is found for a thread. -/
def LockTable.shown (s : LockTable) (t : String) : Option LockEntry := (s.entries.get? t).map s.object

/-- The entry that the callers in progress make of a thread's: none without them. -/
def entryOf (callers : List ResumeLease) (t : String) : Option LockEntry :=
  if callers.countP (·.countedFor t) = 0 then none
  else some { locked := decide (0 < callers.countP (·.ownsFor t)), refs := callers.countP (·.countedFor t) }

/-- The lock table is its callers' and nothing else. -/
theorem LockInv.shown_eq {s : LockTable} (h : LockInv s) (t : String) :
    s.shown t = entryOf s.leases t := by
  cases ht : s.entries.get? t with
  | none => rw [LockTable.shown, ht, entryOf, if_pos (h.countedFor_eq_zero ht).1, Option.map_none]
  | some e =>
    have hrefs := h.refs t e ht
    have hword := h.word t e ht
    rw [LockTable.shown, ht, entryOf, if_neg (h.used t e ht).ne', Option.map_some, ← hrefs, ← hword]
    cases s.object e with
    | mk locked refs => cases locked <;> rfl

/-- A caller that is done shows nothing. -/
theorem entryOf_eraseIdx {callers : List ResumeLease} {i : ℕ} {x : ResumeLease} (hx : callers[i]? = some x)
    (hp : x.phase = .done) (t : String) : entryOf (callers.eraseIdx i) t = entryOf callers t := by
  have hcounted : x.countedFor t = false := by simp [ResumeLease.countedFor, hp, LeasePhase.counted]
  have howns : x.ownsFor t = false := by simp [ResumeLease.ownsFor, hp, LeasePhase.owns]
  rw [entryOf, entryOf, countP_eraseIdx hx hcounted, countP_eraseIdx hx howns]

/-- Where a table has the callers of another, but for some that are done, it stores the same entries. -/
theorem get?_eq_of_callers {s s₀ : LockTable} {i : ℕ} {x : ResumeLease} (h : LockInv s) (h₀ : LockInv s₀)
    (hx : s.leases[i]? = some x) (hp : x.phase = .done) (hcallers : s.leases.eraseIdx i = s₀.leases)
    (t : String) : s.entries.get? t = s₀.entries.get? t := by
  have hshown : s.shown t = s₀.shown t := by
    rw [h.shown_eq, h₀.shown_eq, ← entryOf_eraseIdx hx hp, hcallers]
  cases ht : s₀.entries.get? t with
  | none =>
    rw [LockTable.shown, LockTable.shown, ht, Option.map_none, Option.map_eq_none_iff] at hshown
    exact hshown
  | some e =>
    -- a caller of the thread refers to the entry in either table
    obtain ⟨y, hy, hcounted⟩ := List.countP_pos_iff.mp (h₀.used t e ht)
    obtain ⟨hc, rfl⟩ : y.phase.counted = true ∧ y.threadId = t := by
      simpa [ResumeLease.countedFor] using hcounted
    have hmem : y ∈ s.leases := List.mem_of_mem_eraseIdx (hcallers ▸ hy)
    rw [h.stored y hmem hc, ← h₀.stored y hy hc, ht]

/-! ### A call that fails, and the next one -/

section ending
variable {thread : String} {principal : Principal} {body : ApproveRequest}

/-- The count is dropped, and the call raises. -/
theorem exists_raised_of_unlocked {locks : LockTable} {i : ℕ} {x : ResumeLease} (e : GateError)
    (hx : locks.leases[i]? = some x) (hp : x.phase = .unlocked) : ∃ s', s'.phase = .raised i e ∧
      exec (gateStep thread principal body) ⟨locks, .unlocked i e⟩ [.proceed] = some s' := by
  obtain ⟨locks', hl, -⟩ := decrement_enabled hx hp
  exact ⟨⟨locks', .raised i e⟩, rfl, by simp [exec, gateStep, GateRun.proceed, hl]⟩

/-- The lock is released before. -/
theorem exists_raised_of_releasing {locks : LockTable} {i : ℕ} {x : ResumeLease} (e : GateError)
    (h : LockInv locks) (hx : locks.leases[i]? = some x) (hp : x.phase = .flagged) :
    ∃ s', s'.phase = .raised i e ∧
      exec (gateStep thread principal body) ⟨locks, .releasing i e⟩ [.proceed, .proceed] = some s' := by
  obtain ⟨locks', hl, hx'⟩ := unlock_enabled h hx hp
  obtain ⟨s', hs', hrun⟩ := exists_raised_of_unlocked e hx' rfl
  refine ⟨s', hs', exec_cons_eq_some.mpr ⟨_, ?_, hrun⟩⟩
  simp only [gateStep, GateRun.proceed, hl, Option.map_some]

/-- A failed call is never blocked on its way out. -/
theorem exists_raised {s : GateRun} (h : GateInv thread s) {e : GateError}
    (hfailed : s.phase.outcome? = some (.error e)) : ∃ n ≤ 3, ∃ i s', s'.phase = .raised i e ∧
      exec (gateStep thread principal body) s (List.replicate n .proceed) = some s' := by
  obtain ⟨locks, phase⟩ := s
  cases phase with
  | called | waiting i | checking i | returned i decisions => cases hfailed
  | failed i e' =>
    cases hfailed
    obtain ⟨x, hx, -, hp⟩ := h.lease i _ rfl
    obtain ⟨locks', hl, hx'⟩ := release_enabled hx hp
    obtain ⟨s', hs', hrun⟩ := exists_raised_of_releasing e (h.locks.step hl) hx' rfl
    refine ⟨3, le_rfl, i, s', hs', exec_cons_eq_some.mpr ⟨_, ?_, hrun⟩⟩
    simp only [gateStep, GateRun.proceed, hl, Option.map_some]
  | releasing i e' =>
    cases hfailed
    obtain ⟨x, hx, -, hp⟩ := h.lease i _ rfl
    obtain ⟨s', hs', hrun⟩ := exists_raised_of_releasing e h.locks hx hp
    exact ⟨2, by decide, i, s', hs', hrun⟩
  | unlocked i e' =>
    cases hfailed
    obtain ⟨x, hx, -, hp⟩ := h.lease i _ rfl
    obtain ⟨s', hs', hrun⟩ := exists_raised_of_unlocked e hx hp
    exact ⟨1, by decide, i, s', hs', hrun⟩
  | raised i e' =>
    cases hfailed
    exact ⟨0, by decide, i, _, rfl, rfl⟩

/-- Where nobody owns the lock of the thread, a call by the owner of the paused thread goes through. -/
theorem exists_returned {locks : LockTable} (h : LockInv locks)
    (hfree : locks.leases.countP (·.ownsFor thread) = 0) {snapshot : ThreadSnapshot} {decisions : Json}
    (hgate : gateDecisions principal body (.ok snapshot) none = .ok decisions) :
    ∃ i s', s'.phase = .returned i decisions ∧ exec (gateStep thread principal body) ⟨locks, .called⟩
      [.proceed, .proceed, .check (.ok snapshot) none] = some s' := by
  have hx : (locks.enter thread).leases[locks.leases.length]? =
      some ⟨thread, (locks.mint thread).1, .waiting⟩ := by
    rw [leases_enter, List.getElem?_concat_length]
  have hfree' : (locks.enter thread).leases.countP (·.ownsFor thread) = 0 := by
    rw [leases_enter, List.countP_append, hfree]
    simp [ResumeLease.ownsFor, LeasePhase.owns]
  obtain ⟨locks', hl⟩ := lock_enabled (h.enter thread) hx rfl hfree'
  refine ⟨_, ⟨locks', .returned locks.leases.length decisions⟩, rfl, ?_⟩
  simp [exec, gateStep, GateRun.proceed, GateRun.check, hl, hgate]

end ending

/-- The `try` block, if it comes to one, sees a state of a thread that exists and has this owner. -/
def SeesThreadOf (owner : Option Principal) (ls : List GateStep) : Prop :=
  ∀ read raises, .check read raises ∈ ls →
    ∃ snapshot state, read = .ok snapshot ∧ snapshot.values = some state ∧ state.principal = owner

/-- A call among any callers of the lock, whatever comes up in its `try` block. It gets the decisions only as
    the owner of a thread that awaits approval. Where the caller does not own the thread, any two calls
    end alike, in a 403, however far the thread is. A call that failed is never blocked on its way out;
    once it raised, the table is what the other callers make it, and as the call found it if they have not
    moved, and the next call by the owner only waits for one of those. -/
theorem gateResume_guarded {thread : String} {principal : Principal} {body : ApproveRequest}
    {before : List LockStep} {locks : LockTable} {ls : List GateStep} {s : GateRun}
    (hbefore : exec lockStep {} before = some locks)
    (hrun : exec (gateStep thread principal body) ⟨locks, .called⟩ ls = some s) :
    (∀ decisions, s.phase.outcome? = some (.ok decisions) →
      ∃ snapshot state, .check (.ok snapshot) none ∈ ls ∧ snapshot.values = some state ∧
        OwnsThread state.principal principal ∧ isAwaitingApproval snapshot.toStateSnapshot = true ∧
        decisions = decisionPayload body snapshot principal) ∧
    (∀ owner o, ¬OwnsThread owner principal → SeesThreadOf owner ls → s.phase.outcome? = some o →
      (∃ detail, o = .error (.http ⟨403, detail⟩)) ∧
      ∀ (body' : ApproveRequest) locks' ls' s' o',
        exec (gateStep thread principal body') ⟨locks', .called⟩ ls' = some s' →
        SeesThreadOf owner ls' → s'.phase.outcome? = some o' → o' = o) ∧
    (∀ e, s.phase.outcome? = some (.error e) → ∃ n ≤ 3, ∃ i s', s'.phase = .raised i e ∧
      exec (gateStep thread principal body) s (List.replicate n .proceed) = some s') ∧
    ∀ i e, s.phase = .raised i e →
      (∀ t, s.locks.shown t = entryOf (s.locks.leases.eraseIdx i) t) ∧
      (s.locks.leases.eraseIdx i = locks.leases →
        ∀ t, s.locks.entries.get? t = locks.entries.get? t ∧ s.locks.shown t = locks.shown t) ∧
      ∀ (owner : Principal) (body' : ApproveRequest) snapshot state, snapshot.values = some state →
        OwnsThread state.principal owner → state.principal ≠ some Principal.anonymous →
        isAwaitingApproval snapshot.toStateSnapshot = true →
        (s.locks.leases.eraseIdx i).countP (·.ownsFor thread) = 0 →
        ∃ j s', s'.phase = .returned j (decisionPayload body' snapshot owner) ∧
          exec (gateStep thread owner body') ⟨s.locks, .called⟩
            [.proceed, .proceed, .check (.ok snapshot) none] = some s' := by
  have hinv := GateInv.of_exec hbefore hrun
  have hdecided := decidedIn_of_exec hrun
  refine ⟨fun decisions hok => ?_, fun owner o howns hsees hend => ?_, fun e => exists_raised hinv,
    fun i e hraised => ?_⟩
  · obtain ⟨read, raises, hl, hgate⟩ := hdecided _ hok
    obtain ⟨snapshot, state, rfl, hvalues, howns, -, hawaiting, rfl, rfl⟩ := gateDecisions_eq_ok.mp hgate
    exact ⟨snapshot, state, hl, hvalues, howns, hawaiting, rfl⟩
  · obtain ⟨detail, hrefused⟩ := gateDecisions_refused howns
    have hall : ∀ {body ls s o}, GateRun.DecidedIn principal body ls s → SeesThreadOf owner ls →
        s.phase.outcome? = some o → o = .error (.http ⟨403, detail⟩) := by
      intro body ls s o hdecided hsees hend
      obtain ⟨read, raises, hl, rfl⟩ := hdecided o hend
      obtain ⟨snapshot, state, rfl, hvalues, howner⟩ := hsees read raises hl
      exact hrefused body snapshot state raises hvalues howner
    have ho := hall hdecided hsees hend
    refine ⟨⟨detail, ho⟩, fun body' locks' ls' s' o' hrun' hsees' hend' => ?_⟩
    rw [ho, hall (decidedIn_of_exec hrun') hsees' hend']
  · obtain ⟨x, hx, -, hp⟩ := hinv.lease i .done (by rw [hraised]; rfl)
    have hlocks : LockInv locks :=
      invariant_of_exec (fun _ _ _ h hs => LockInv.step h hs) LockInv.initial hbefore
    have hshown : ∀ t, s.locks.shown t = entryOf (s.locks.leases.eraseIdx i) t := fun t => by
      rw [hinv.locks.shown_eq, entryOf_eraseIdx hx hp]
    refine ⟨hshown, fun hcallers t => ⟨?_, ?_⟩,
      fun owner body' snapshot state hvalues howns hanon hawaiting hfree => ?_⟩
    · exact get?_eq_of_callers hinv.locks hlocks hx hp hcallers t
    · rw [hshown, hcallers, hlocks.shown_eq]
    · have hdone : x.ownsFor thread = false := by simp [ResumeLease.ownsFor, hp, LeasePhase.owns]
      rw [countP_eraseIdx hx hdone] at hfree
      exact exists_returned hinv.locks hfree
        (gateDecisions_eq_ok.mpr ⟨snapshot, state, rfl, hvalues, howns, hanon, hawaiting, rfl, rfl⟩)

/-- A call on the paused thread of another, up to its end. -/
def refusedCall : List GateStep :=
  [.proceed, .proceed, .check (.ok pausedPair) none, .proceed, .proceed, .proceed]

def bob : Principal := { userId := "bob", roles := ["member"] }

/-- The call is refused, and the table as empty as before. -/
theorem gateResume_guarded_refused : ∃ s detail,
    exec (gateStep "thr_1" bob mixedRequest) ⟨{}, .called⟩ refusedCall = some s ∧
      s.phase.outcome? = some (.error (.http ⟨403, detail⟩)) ∧ ∀ t, s.locks.entries.get? t = none := by
  obtain ⟨s, hrun, i, e, hraised, hcallers⟩ : ∃ s,
      exec (gateStep "thr_1" bob mixedRequest) ⟨{}, .called⟩ refusedCall = some s ∧
        ∃ i e, s.phase = .raised i e ∧ s.locks.leases.eraseIdx i = [] := ⟨_, rfl, _, _, rfl, rfl⟩
  obtain ⟨-, hrefused, -, hleft⟩ := @gateResume_guarded "thr_1" bob mixedRequest [] {} refusedCall s rfl hrun
  have hbob : ¬OwnsThread (some { userId := "alice", roles := ["admin"] }) bob := by
    rintro ⟨-, o, ho, huser, -⟩
    cases ho
    revert huser
    decide
  have hsees : SeesThreadOf (some { userId := "alice", roles := ["admin"] }) refusedCall := by
    intro read raises hl
    obtain ⟨rfl, -⟩ : read = .ok pausedPair ∧ raises = none := by simpa [refusedCall] using hl
    exact ⟨pausedPair, _, rfl, rfl, rfl⟩
  obtain ⟨⟨detail, hdetail⟩, -⟩ := hrefused _ _ hbob hsees (by rw [hraised]; rfl)
  refine ⟨s, detail, hrun, ?_, fun t => ((hleft i e hraised).2.1 hcallers t).1⟩
  rw [hraised, ← hdetail]
  rfl

end Atlas
