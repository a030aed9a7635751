import Atlas.Interface.ResumeLock
import Atlas.Interface.Security

/-! Resuming a paused thread over HTTP. A request takes the resume lock, reads the checkpoint, and past the
    checks of `gate_resume` runs the graph: `/approve` in the handler, `/approve/stream` on a producer task
    of its own, which goes on when the client is gone. The lease is released at six places on four tasks;
    every release is one step of `lockStep`, so the requests of one thread and the callers of the lock
    are one system. What must hold is that at most one request past the gate has a run that may still
    touch the checkpoint (`OneLiveRun`), and so that a pause is resumed once (`ResumedOnce`). -/

namespace Atlas

open LabelledRun Parties

/-- `is_awaiting_approval`. -/
def isAwaitingApproval (snapshot : StateSnapshot) : Bool := snapshot.next.contains "approval"

/-- The checks of `gate_resume` on the snapshot it read. -/
def gateChecks (snapshot : StateSnapshot) (principal : Principal) : Except HTTPException Unit :=
  if snapshot.values = none then .error ⟨404, "Thread not found."⟩
  else
    match verifyThreadOwner (threadOwner snapshot) principal with
    | .error e => .error e
    | .ok () =>
      if isAwaitingApproval snapshot then .ok ()
      else .error ⟨409, "Thread is not awaiting approval."⟩

/-- How far a request is; `k` is the pause it saw at the gate. -/
inductive RequestPhase where
  | acquiring              -- in `acquire_resume_lock`, or with the lease before `get_state`
  | refused (e : Option HTTPException)  -- none: `get_state` raised
  | passed (k : ℕ)         -- past the gate, the run not begun
  | starting (k : ℕ)       -- the producer task exists, `_start` has not returned
  | running (k : ℕ)        -- the graph iterator is advanced
  | cancelled (k : ℕ)      -- the producer task was cancelled, the iterator not closed yet
  | ended (started : Bool)  -- exhausted, raised or closed; `_start` raised where not started
  | abandoned              -- the response ended before its body began: no run
  deriving DecidableEq, Repr

/-- The pause a request is about to resume or is resuming. -/
def RequestPhase.pause? : RequestPhase → Option ℕ
  | .passed k | .starting k | .running k | .cancelled k => some k
  | _ => none

/-- One request to `/approve` or `/approve/stream`. `responding` is false once the response has ended, by
    its last event or by a disconnect; `resumed` is the pause its run has moved the checkpoint past. -/
structure ApproveCall where
  stream : Bool
  caller : Principal
  phase : RequestPhase := .acquiring
  responding : Bool := true
  resumed : Option ℕ := none
  deriving DecidableEq, Repr

/-- The request is past the gate and its graph iterator is neither exhausted nor has it raised. -/
def ApproveCall.live (r : ApproveCall) : Bool := r.phase.pause?.isSome

/-- The places that call `lease.release()`. -/
inductive ReleaseSite where
  | gate          -- `gate_resume`, on a failed check
  | handler       -- `approve`, in its `finally`
  | startFailure  -- `_start`, when `graph.stream` raises
  | producer      -- `run_graph_stream`, in its `finally`
  | generator     -- `_stream_lifecycle`, at the end of its `finally`
  | background    -- the background task of the response
  deriving DecidableEq, Repr

/-- When a request gets to a place. The generator waits for its producer first, and a producer that is
    cancelled goes through its `finally` at once. -/
def ReleaseSite.reachable (r : ApproveCall) : ReleaseSite → Bool
  | .gate => match r.phase with | .refused _ => true | _ => false
  | .handler => !r.stream && (match r.phase with | .ended _ => true | _ => false)
  | .startFailure => r.stream && r.phase == .ended false
  | .producer => r.stream && (match r.phase with | .ended _ | .cancelled _ => true | _ => false)
  | .generator => r.stream && (match r.phase with | .ended _ => true | _ => false)
  | .background => r.stream && !r.responding

/-- The lock, the checkpoint of the thread with the number of pauses it has come to, and the requests;
    request `i` is caller `i` of the lock. -/
structure ApproveState where
  locks : LockTable := {}
  snapshot : StateSnapshot
  pauses : ℕ := 0
  requests : List ApproveCall := []

/-- What a request does on its own, without the lock. -/
inductive CallStep where
  | check                                   -- `get_state` and the checks on it
  | checkRaises                             -- `get_state` raises
  | begin                                   -- the body generator, or the handler, starts the run
  | start (ok : Bool)                       -- `_start` returns or raises
  | next (checkpoint : Option (List String))  -- one `next()`, and the checkpoint it wrote
  | finish                                  -- the iterator is exhausted or raises
  | disconnect                              -- the client is gone
  | cancel                                  -- the generator is cancelled while it awaits the producer
  | respond                                 -- the response ends with its last event
  deriving DecidableEq, Repr

inductive ApproveStep where
  | arrive (stream : Bool) (caller : Principal)  -- a request enters `acquire_resume_lock`
  | lock (l : LockStep)                          -- a step inside an acquire or a release
  | release (i : ℕ) (site : ReleaseSite)         -- the first step of a release
  | call (i : ℕ) (c : CallStep)
  deriving DecidableEq, Repr

namespace ApproveState

/-- Change one request. -/
def put (s : ApproveState) (i : ℕ) (r : ApproveCall) : ApproveState :=
  { s with requests := s.requests.set i r }

/-- The caller holds the lease and has not read the snapshot yet. -/
def atGate (s : ApproveState) (i : ℕ) (r : ApproveCall) : Bool :=
  r.phase == .acquiring && s.locks.leases[i]?.map (·.phase) == some .held

/-- A checkpoint written by a run; one that awaits approval is a new pause. -/
def write (s : ApproveState) (next : List String) : ApproveState :=
  { s with
    snapshot := { s.snapshot with next := next }
    pauses := if next.contains "approval" then s.pauses + 1 else s.pauses }

/-- A `next()` of a run on pause `k` that leaves the request in phase `p`. -/
def advance (s : ApproveState) (i : ℕ) (r : ApproveCall) (k : ℕ) (p : RequestPhase) :
    Option (List String) → ApproveState
  | none => s.put i { r with phase := p }
  | some next => (s.write next).put i { r with phase := p, resumed := some k }

/-- One step of request `i`. -/
def call (s : ApproveState) (i : ℕ) (r : ApproveCall) : CallStep → Option ApproveState
  | .check =>
    if s.atGate i r then
      match gateChecks s.snapshot r.caller with
      | .ok () => some (s.put i { r with phase := .passed s.pauses })
      | .error e => some (s.put i { r with phase := .refused (some e) })
    else none
  | .checkRaises => if s.atGate i r then some (s.put i { r with phase := .refused none }) else none
  | .begin =>
    match r.phase with
    | .passed k =>
      if r.stream then
        if r.responding then some (s.put i { r with phase := .starting k }) else none
      else some (s.put i { r with phase := .running k })
    | _ => none
  | .start ok =>
    match r.phase with
    | .starting k => some (s.put i { r with phase := if ok then .running k else .ended false })
    | _ => none
  | .next checkpoint =>
    match r.phase with
    | .running k => some (s.advance i r k (.running k) checkpoint)
    -- the call in flight on the worker thread still returns, then the iterator is closed
    | .cancelled k => some (s.advance i r k (.ended true) checkpoint)
    | _ => none
  | .finish =>
    match r.phase with
    | .running _ => some (s.put i { r with phase := .ended true })
    | _ => none
  | .disconnect =>
    if r.stream && r.responding then
      match r.phase with
      | .passed _ => some (s.put i { r with phase := .abandoned, responding := false })
      | .starting _ | .running _ | .ended _ => some (s.put i { r with responding := false })
      | _ => none
    else none
  | .cancel =>
    if r.stream && !r.responding then
      match r.phase with
      | .starting k | .running k => some (s.put i { r with phase := .cancelled k })
      | _ => none
    else none
  | .respond =>
    match r.phase with
    | .ended _ => if r.stream && r.responding then some (s.put i { r with responding := false }) else none
    | _ => none

end ApproveState

/-- One atomic step of the requests for a thread. -/
def approveStep (thread : String) (s : ApproveState) : ApproveStep → Option ApproveState
  | .arrive stream caller =>
    some { s with
      locks := s.locks.enter thread
      requests := s.requests ++ [{ stream := stream, caller := caller }] }
  | .lock l =>
    match l with
    | .enter _ | .release _ => none
    | .lock _ | .unlock _ | .decrement _ => (lockStep s.locks l).map (fun t => { s with locks := t })
  | .release i site =>
    s.requests[i]?.bind fun r =>
      if site.reachable r then
        (lockStep s.locks (.release i)).map (fun t => { s with locks := t })
      else none
  | .call i c => s.requests[i]?.bind fun r => s.call i r c

/-- Two requests never both hold a run that may still touch the checkpoint. -/
def OneLiveRun (s : ApproveState) : Prop :=
  ∀ (i j : ℕ) (r r' : ApproveCall), s.requests[i]? = some r → s.requests[j]? = some r' →
    r.live = true → r'.live = true → i = j

/-- No two requests have moved the checkpoint past one pause. -/
def ResumedOnce (s : ApproveState) : Prop :=
  ∀ (i j : ℕ) (r r' : ApproveCall) (k : ℕ), s.requests[i]? = some r → s.requests[j]? = some r' →
    r.resumed = some k → r'.resumed = some k → i = j

/-- The background task, and the `finally` of a producer that was cancelled, release the lease only when
    the run of their request is over or will never begin. -/
def OutlivesRun (s : ApproveState) : ApproveStep → Prop
  | .release i .background | .release i .producer => ∀ r, s.requests[i]? = some r → r.live = false
  | _ => True

/-! ### What one step does -/

variable {thread : String} {s s' : ApproveState} {i : ℕ} {r : ApproveCall}

/-- A snapshot that passes the checks awaits approval. -/
theorem awaiting_of_gateChecks {snapshot : StateSnapshot} {principal : Principal}
    (h : gateChecks snapshot principal = .ok ()) : isAwaitingApproval snapshot = true := by
  unfold gateChecks at h
  split at h
  next => cases h
  next =>
    split at h
    next => cases h
    next =>
      split at h
      next hw => exact hw
      next => cases h

/-- The request only moves on: it keeps its pause or its run ends. -/
def MovesOn (s s' : ApproveState) (i : ℕ) (r : ApproveCall) : Prop :=
  ∃ p b, (p.pause? = r.phase.pause? ∨ p.pause? = none) ∧ p ≠ .acquiring ∧
    s' = s.put i { r with phase := p, responding := b }

theorem MovesOn.over {p : RequestPhase} {b : Bool} (hp : p.pause? = none) (hacq : p ≠ .acquiring) :
    MovesOn s (s.put i { r with phase := p, responding := b }) i r := ⟨p, b, Or.inr hp, hacq, rfl⟩

theorem MovesOn.keeps {p : RequestPhase} {b : Bool} (hp : p.pause? = r.phase.pause?) (hacq : p ≠ .acquiring) :
    MovesOn s (s.put i { r with phase := p, responding := b }) i r := ⟨p, b, Or.inl hp, hacq, rfl⟩

/-- The three kinds of own steps of a request: it passes the gate, its run writes a checkpoint, or it only
    moves on. -/
theorem call_cases {c : CallStep} (h : s.call i r c = some s') :
    (s.atGate i r = true ∧ isAwaitingApproval s.snapshot = true ∧
      s' = s.put i { r with phase := .passed s.pauses }) ∨
    (∃ k p next, r.phase.pause? = some k ∧ (p.pause? = some k ∨ p.pause? = none) ∧ p ≠ .acquiring ∧
      s' = (s.write next).put i { r with phase := p, resumed := some k }) ∨
    MovesOn s s' i r := by
  cases c with
  | check =>
    simp only [ApproveState.call] at h
    split at h
    next hgate =>
      split at h
      next hok => cases h; exact Or.inl ⟨hgate, awaiting_of_gateChecks hok, rfl⟩
      next => cases h; exact Or.inr (Or.inr (.over rfl (by simp)))
    next => cases h
  | checkRaises =>
    simp only [ApproveState.call] at h
    split at h
    next => cases h; exact Or.inr (Or.inr (.over rfl (by simp)))
    next => cases h
  | begin =>
    simp only [ApproveState.call] at h
    split at h
    next k hp =>
      split at h
      next =>
        split at h
        next => cases h; exact Or.inr (Or.inr (.keeps (by rw [hp]; rfl) (by simp)))
        next => cases h
      next => cases h; exact Or.inr (Or.inr (.keeps (by rw [hp]; rfl) (by simp)))
    next => cases h
  | start ok =>
    simp only [ApproveState.call] at h
    split at h
    next k hp =>
      cases h
      cases ok with
      | true => exact Or.inr (Or.inr (.keeps (by rw [hp]; rfl) (by simp)))
      | false => exact Or.inr (Or.inr (.over rfl (by simp)))
    next => cases h
  | next checkpoint =>
    simp only [ApproveState.call] at h
    split at h
    next k hp =>
      cases h
      cases checkpoint with
      | none => exact Or.inr (Or.inr (.keeps (by rw [hp]) (by simp)))
      | some next => exact Or.inr (Or.inl ⟨k, .running k, next, by rw [hp]; rfl, Or.inl rfl, by simp, rfl⟩)
    next k hp =>
      cases h
      cases checkpoint with
      | none => exact Or.inr (Or.inr (.over rfl (by simp)))
      | some next => exact Or.inr (Or.inl ⟨k, .ended true, next, by rw [hp]; rfl, Or.inr rfl, by simp, rfl⟩)
    next => cases h
  | finish =>
    simp only [ApproveState.call] at h
    split at h
    next => cases h; exact Or.inr (Or.inr (.over rfl (by simp)))
    next => cases h
  | disconnect =>
    simp only [ApproveState.call] at h
    split at h
    next =>
      split at h
      next => cases h; exact Or.inr (Or.inr (.over rfl (by simp)))
      next hp => cases h; exact Or.inr (Or.inr (.keeps rfl (by simp [hp])))
      next hp => cases h; exact Or.inr (Or.inr (.keeps rfl (by simp [hp])))
      next hp => cases h; exact Or.inr (Or.inr (.keeps rfl (by simp [hp])))
      next => cases h
    next => cases h
  | cancel =>
    simp only [ApproveState.call] at h
    split at h
    next =>
      split at h
      next k hp =>
        cases h; exact Or.inr (Or.inr (.keeps (by rw [hp]; rfl) (by simp)))
      next k hp =>
        cases h; exact Or.inr (Or.inr (.keeps (by rw [hp]; rfl) (by simp)))
      next => cases h
    next => cases h
  | respond =>
    simp only [ApproveState.call] at h
    split at h
    next hp =>
      split at h
      next => cases h; exact Or.inr (Or.inr (.keeps rfl (by simp [hp])))
      next => cases h
    next => cases h

/-- A run reaches the other places that release its lease only when it is over. -/
theorem not_live_of_reachable {site : ReleaseSite} (h : site.reachable r = true)
    (hb : site ≠ .background) (hp : site ≠ .producer) : r.live = false := by
  have hlive : r.live = r.phase.pause?.isSome := rfl
  rw [hlive]
  cases hph : r.phase with
  | acquiring | refused e | ended b | abandoned => rfl
  | passed k | starting k | running k | cancelled k =>
    cases site with
    | background => exact absurd rfl hb
    | producer => exact absurd rfl hp
    | gate | handler | startFailure | generator => simp [ReleaseSite.reachable, hph] at h

/-- Only what requests have resumed matters. -/
theorem ResumedOnce.put (h : ResumedOnce s) (hr : s.requests[i]? = some r) {q : ApproveCall}
    (hq : q.resumed = r.resumed) : ResumedOnce (s.put i q) := by
  have hsome : s.requests[i]? ≠ none := by rw [hr]; simp
  intro j j' r' r'' k hr' hr'' hk hk'
  rcases get_move_cases hr' hsome with ⟨rfl, rfl⟩ | ⟨-, hold⟩ <;>
    rcases get_move_cases hr'' hsome with ⟨rfl, rfl⟩ | ⟨-, hold'⟩
  · rfl
  · exact h _ _ _ _ k hr hold' (hq ▸ hk) hk'
  · exact h _ _ _ _ k hold hr hk (hq ▸ hk')
  · exact h _ _ _ _ k hold hold' hk hk'

/-! ### The invariant -/

/-- What the requests and the lock keep to: a live request holds its lease, the checkpoint is still at the
    pause of a live request that has not moved past it, and is past every pause that was resumed. -/
structure ApproveInv (thread : String) (s : ApproveState) : Prop where
  lock : LockInv s.locks
  own : ∀ x ∈ s.locks.leases, x.threadId = thread
  lease : ∀ (i : ℕ) (r : ApproveCall), s.requests[i]? = some r → r.live = true →
    ∃ x, s.locks.leases[i]? = some x ∧ x.phase = LeasePhase.held
  fresh : ∀ r ∈ s.requests, r.phase = .acquiring → r.resumed = none
  current : ∀ r ∈ s.requests, ∀ k, r.phase.pause? = some k →
    r.resumed = some k ∨ r.resumed = none ∧ isAwaitingApproval s.snapshot = true ∧ s.pauses = k
  past : ∀ r ∈ s.requests, ∀ k, r.resumed = some k →
    k ≤ s.pauses ∧ (k = s.pauses → isAwaitingApproval s.snapshot = false)
  once : ResumedOnce s

namespace ApproveInv

theorem initial (snapshot : StateSnapshot) : ApproveInv thread { snapshot := snapshot } where
  lock := LockInv.initial
  own _ h := by cases h
  lease _ _ h := by cases h
  fresh _ h := by cases h
  current _ h := by cases h
  past _ h := by cases h
  once _ _ _ _ _ h := by cases h

/-- Live requests hold leases of one thread, of which the lock gives out one. -/
theorem exclusive (h : ApproveInv thread s) : OneLiveRun s := by
  intro i j r r' hr hr' hlive hlive'
  obtain ⟨x, hx, hxp⟩ := h.lease i r hr hlive
  obtain ⟨y, hy, hyp⟩ := h.lease j r' hr' hlive'
  have hxt := h.own x (List.mem_of_getElem? hx)
  have hyt := h.own y (List.mem_of_getElem? hy)
  exact eq_of_countP_le_one (h.lock.safe.oneLease thread) hx hy
    (by simp [ResumeLease.heldFor, hxp, hxt]) (by simp [ResumeLease.heldFor, hyp, hyt])

/-- A step of the lock that leaves the leases of live requests alone. -/
theorem locks (h : ApproveInv thread s) {l : LockStep} {t : LockTable}
    (hs : lockStep s.locks l = some t) (hown : ∀ t', l = .enter t' → t' = thread)
    (hl : ∀ i r, s.requests[i]? = some r → r.live = true → l ≠ .release i) :
    ApproveInv thread { s with locks := t } where
  lock := h.lock.step hs
  own := threadId_step hs hown h.own
  lease i r hr hlive := by
    obtain ⟨x, hx, hp⟩ := h.lease i r hr hlive
    exact ⟨x, held_step hx hp (hl i r hr hlive) hs, hp⟩
  fresh := h.fresh
  current := h.current
  past := h.past
  once := h.once

/-- A new request waits for the lock and has done nothing yet. -/
theorem arrive (h : ApproveInv thread s) (stream : Bool) (caller : Principal) :
    ApproveInv thread { s with
      locks := s.locks.enter thread
      requests := s.requests ++ [{ stream := stream, caller := caller }] } := by
  have hl := h.locks (l := .enter thread) (t := s.locks.enter thread) rfl
    (fun t' ht' => by cases ht'; rfl) (fun _ _ _ _ => by simp)
  have hmem : ∀ r ∈ s.requests ++ [{ stream := stream, caller := caller : ApproveCall }],
      r ∈ s.requests ∨ r = { stream := stream, caller := caller } := by
    intro r hr; simpa using hr
  refine ⟨hl.lock, hl.own, ?_, ?_, ?_, ?_, ?_⟩
  · intro i r hr hlive
    rcases get_concat hr with hr | rfl
    · exact hl.lease i r hr hlive
    · cases hlive
  · intro r hr hp
    rcases hmem r hr with hr | rfl
    · exact h.fresh r hr hp
    · rfl
  · intro r hr k hk
    rcases hmem r hr with hr | rfl
    · exact h.current r hr k hk
    · cases hk
  · intro r hr k hk
    rcases hmem r hr with hr | rfl
    · exact h.past r hr k hk
    · cases hk
  · intro i j r r' k hr hr' hk hk'
    rcases get_concat hr with hr | rfl
    · rcases get_concat hr' with hr' | rfl
      · exact h.once i j r r' k hr hr' hk hk'
      · cases hk'
    · cases hk

/-- A request that keeps its pause or gives it up moves on freely. -/
theorem movesOn (h : ApproveInv thread s) (hr : s.requests[i]? = some r) (hm : MovesOn s s' i r) :
    ApproveInv thread s' := by
  obtain ⟨p, b, hp, hacq, rfl⟩ := hm
  have hmem := List.mem_of_getElem? hr
  have hsome : s.requests[i]? ≠ none := by rw [hr]; simp
  refine ⟨h.lock, h.own, ?_, ?_, ?_, ?_, ?_⟩
  · intro j r' hr' hlive
    rcases get_move_cases hr' hsome with ⟨rfl, rfl⟩ | ⟨-, hr'⟩
    · rcases hp with hp | hp
      · exact h.lease j r hr (by rw [ApproveCall.live, ← hp]; exact hlive)
      · rw [ApproveCall.live, hp] at hlive; cases hlive
    · exact h.lease j r' hr' hlive
  · exact forall_move h.fresh fun hacq' => absurd hacq' hacq
  · refine forall_move h.current fun k hk => ?_
    rcases hp with hp | hp
    · exact h.current r hmem k (by rw [← hp]; exact hk)
    · rw [hp] at hk; cases hk
  · exact forall_move h.past (h.past r hmem)
  · exact h.once.put hr rfl

/-- Past the gate a request is at the current pause, with its lease held. -/
theorem pass (h : ApproveInv thread s) (hr : s.requests[i]? = some r) (hgate : s.atGate i r = true)
    (hawait : isAwaitingApproval s.snapshot = true) :
    ApproveInv thread (s.put i { r with phase := .passed s.pauses }) := by
  have hmem := List.mem_of_getElem? hr
  have hsome : s.requests[i]? ≠ none := by rw [hr]; simp
  obtain ⟨hacq, hheld⟩ : r.phase = .acquiring ∧ s.locks.leases[i]?.map (·.phase) = some .held := by
    simpa [ApproveState.atGate] using hgate
  refine ⟨h.lock, h.own, ?_, ?_, ?_, ?_, ?_⟩
  · intro j r' hr' hlive
    rcases get_move_cases hr' hsome with ⟨rfl, rfl⟩ | ⟨-, hr'⟩
    · exact Option.map_eq_some_iff.mp hheld
    · exact h.lease j r' hr' hlive
  · exact forall_move h.fresh fun hacq' => by cases hacq'
  · refine forall_move h.current fun k hk => Or.inr ⟨h.fresh r hmem hacq, hawait, ?_⟩
    exact Option.some.inj hk
  · exact forall_move h.past (h.past r hmem)
  · exact h.once.put hr rfl

/-- A checkpoint written by the only live run leaves the pause it resumes behind. -/
theorem write (h : ApproveInv thread s) (hr : s.requests[i]? = some r) {k : ℕ} {p : RequestPhase}
    (next : List String) (hk : r.phase.pause? = some k) (hp : p.pause? = some k ∨ p.pause? = none)
    (hacq : p ≠ .acquiring) :
    ApproveInv thread ((s.write next).put i { r with phase := p, resumed := some k }) := by
  have hmem := List.mem_of_getElem? hr
  have hsome : s.requests[i]? ≠ none := by rw [hr]; simp
  have hlive : r.live = true := by rw [ApproveCall.live, hk]; rfl
  have hle : k ≤ s.pauses := by
    rcases h.current r hmem k hk with hres | ⟨-, -, rfl⟩
    · exact (h.past r hmem k hres).1
    · exact le_rfl
  -- pauses up to now are over in the new checkpoint
  have hpast : ∀ k', k' ≤ s.pauses → k' ≤ (s.write next).pauses ∧
      (k' = (s.write next).pauses → isAwaitingApproval (s.write next).snapshot = false) := by
    intro k' hk'
    simp only [ApproveState.write, isAwaitingApproval]
    split
    next => exact ⟨by omega, by omega⟩
    next hn => exact ⟨hk', fun _ => Bool.not_eq_true _ ▸ hn⟩
  refine ⟨h.lock, h.own, ?_, ?_, ?_, ?_, ?_⟩
  · intro j r' hr' hlive'
    rcases get_move_cases hr' hsome with ⟨rfl, rfl⟩ | ⟨-, hold⟩
    · exact h.lease j r hr hlive
    · exact h.lease j r' hold hlive'
  · exact forall_move h.fresh fun hacq' => absurd hacq' hacq
  · intro r' hr' k' hk'
    obtain ⟨j, hj⟩ := List.mem_iff_getElem?.mp hr'
    rcases get_move_cases hj hsome with ⟨rfl, rfl⟩ | ⟨hne, hold⟩
    · rcases hp with hp | hp
      · exact Or.inl (hp.symm.trans hk')
      · rw [hp] at hk'; cases hk'
    · exact absurd (h.exclusive j i r' r hold hr (by rw [ApproveCall.live, hk']; rfl) hlive) hne
  · refine forall_move (fun r' hr' k' hk' => hpast k' (h.past r' hr' k' hk').1) fun k' hk' => ?_
    cases hk'
    exact hpast k hle
  · -- whoever resumed the pause before would have left it behind
    have hnew : ∀ j r', s.requests[j]? = some r' → r'.resumed = some k → j = i := by
      intro j r' hj hres
      rcases h.current r hmem k hk with hres' | ⟨-, hawait, hpk⟩
      · exact h.once j i r' r k hj hr hres hres'
      · rw [(h.past r' (List.mem_of_getElem? hj) k hres).2 hpk.symm] at hawait
        cases hawait
    intro j j' r' r'' k' hj hj' hres hres'
    rcases get_move_cases hj hsome with ⟨rfl, rfl⟩ | ⟨-, hold⟩ <;>
      rcases get_move_cases hj' hsome with ⟨rfl, rfl⟩ | ⟨-, hold'⟩
    · rfl
    · cases hres; exact (hnew _ _ hold' hres').symm
    · cases hres'; exact hnew _ _ hold hres
    · exact h.once _ _ _ _ k' hold hold' hres hres'

/-- A step that releases no lease before its time keeps the invariant. -/
theorem step {l : ApproveStep} (h : ApproveInv thread s) (hok : OutlivesRun s l)
    (hs : approveStep thread s l = some s') : ApproveInv thread s' := by
  cases l with
  | arrive stream caller => cases hs; exact h.arrive stream caller
  | lock l =>
    cases l with
    | enter t => cases hs
    | release i => cases hs
    | lock i | unlock i | decrement i =>
      obtain ⟨t, ht, rfl⟩ := Option.map_eq_some_iff.mp hs
      exact h.locks ht (fun _ h' => by cases h') (fun _ _ _ _ => by simp)
  | release i site =>
    obtain ⟨r, hr, hs⟩ := Option.bind_eq_some_iff.mp hs
    split at hs
    next hreach =>
      obtain ⟨t, ht, rfl⟩ := Option.map_eq_some_iff.mp hs
      have hdead : r.live = false := by
        cases site with
        | background | producer => exact hok r hr
        | gate | handler | startFailure | generator =>
          exact not_live_of_reachable hreach (by simp) (by simp)
      refine h.locks ht (fun _ h' => by cases h') fun j r' hr' hlive heq => ?_
      cases heq
      rw [hr] at hr'
      cases hr'
      rw [hdead] at hlive
      cases hlive
    next => cases hs
  | call i c =>
    obtain ⟨r, hr, hs⟩ := Option.bind_eq_some_iff.mp hs
    obtain ⟨hgate, hawait, rfl⟩ | ⟨k, p, next, hk, hp, hacq, rfl⟩ | hm := call_cases hs
    · exact h.pass hr hgate hawait
    · exact h.write hr next hk hp hacq
    · exact h.movesOn hr hm

end ApproveInv

/-- In a run that releases no lease before the run it protects is over, no two requests are past the gate
    with a live run, and every pause is resumed at most once. -/
theorem approveStream_exclusive (thread : String) (snapshot : StateSnapshot) (ls : List ApproveStep)
    (hok : Respects (approveStep thread) OutlivesRun { snapshot := snapshot } ls) :
    Always (approveStep thread) (fun s => OneLiveRun s ∧ ResumedOnce s) { snapshot := snapshot } ls :=
  always_of_respects (fun _ _ _ h hok hs => ApproveInv.step h hok hs)
    (fun _ h => ⟨h.exclusive, h.once⟩) (.initial snapshot) hok

/-! ### A client that disconnects -/

def alice : Principal := { userId := "alice", roles := ["member"] }

/-- Alice's thread, paused for her approval. -/
def pausedThread : ApproveState := { snapshot := { values := some (some alice), next := ["approval"] } }

/-- A stream request gets past the gate and starts its run; its client disconnects, and the background task
    of the response releases the lease. -/
def disconnectRun : List ApproveStep :=
  [.arrive true alice, .lock (.lock 0), .call 0 .check, .call 0 .begin, .call 0 (.start true),
    .call 0 .disconnect, .release 0 .background, .lock (.unlock 0), .lock (.decrement 0)]

/-- A second request comes in before the first run has written a checkpoint, and both runs resume. -/
def doubleResume : List ApproveStep :=
  disconnectRun ++ [.arrive false alice, .lock (.lock 1), .call 1 .check, .call 1 .begin,
    .call 0 (.next (some ["executor"])), .call 1 (.next (some ["executor"]))]

theorem requests_doubleResume :
    (exec (approveStep "thr") pausedThread doubleResume).map (·.requests) =
      some [⟨true, alice, .running 0, false, some 0⟩, ⟨false, alice, .running 0, true, some 0⟩] := by
  decide

/-- The second request gets past the gate while the first run is live, and one pause is resumed twice. -/
theorem approveStream_not_exclusive :
    (¬ ∀ ls, Always (approveStep "thr") OneLiveRun pausedThread ls) ∧
    ¬ ∀ ls, Always (approveStep "thr") ResumedOnce pausedThread ls := by
  obtain ⟨s, hs⟩ : ∃ s, exec (approveStep "thr") pausedThread doubleResume = some s :=
    Option.isSome_iff_exists.mp (by decide)
  have hreq := requests_doubleResume
  rw [hs, Option.map_some, Option.some.injEq] at hreq
  have h0 : s.requests[0]? = some ⟨true, alice, .running 0, false, some 0⟩ := by rw [hreq]; rfl
  have h1 : s.requests[1]? = some ⟨false, alice, .running 0, true, some 0⟩ := by rw [hreq]; rfl
  constructor
  · intro h
    cases h doubleResume doubleResume s List.prefix_rfl hs 0 1 _ _ h0 h1 rfl rfl
  · intro h
    cases h doubleResume doubleResume s List.prefix_rfl hs 0 1 _ _ 0 h0 h1 rfl rfl

/-- The client disconnects after its run, which has paused again. A second request has waited since before
    that run began, and resumes the new pause. -/
def lateDisconnectRun : List ApproveStep :=
  [.arrive true alice, .arrive false alice, .lock (.lock 0), .call 0 .check, .call 0 .begin,
    .call 0 (.start true), .call 0 (.next (some ["approval"])), .call 0 .finish, .call 0 .disconnect,
    .release 0 .background, .lock (.unlock 0), .lock (.decrement 0), .lock (.lock 1), .call 1 .check,
    .call 1 .begin, .call 1 (.next (some ["executor"]))]

-- both requests have resumed a pause
example : (exec (approveStep "thr") pausedThread lateDisconnectRun).map (·.requests) =
    some [⟨true, alice, .ended true, false, some 0⟩, ⟨false, alice, .running 1, true, some 1⟩] := by decide

/-- The client that disconnects after its run does no harm: each of the two requests resumes one pause. -/
theorem approveStream_exclusive_lateDisconnect :
    Always (approveStep "thr") (fun s => OneLiveRun s ∧ ResumedOnce s) pausedThread lateDisconnectRun := by
  refine approveStream_exclusive "thr" _ _ ?_
  refine .cons rfl trivial <| .cons rfl trivial <| .cons rfl trivial <| .cons rfl trivial <|
    .cons rfl trivial <| .cons rfl trivial <| .cons rfl trivial <| .cons rfl trivial <|
    .cons rfl trivial <| .cons rfl ?_ <| .cons rfl trivial <| .cons rfl trivial <|
    .cons rfl trivial <| .cons rfl trivial <| .cons rfl trivial <| .cons rfl trivial .nil
  intro r hr
  cases hr
  rfl

end Atlas
