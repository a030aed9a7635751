import Atlas.Lib.Dict
import Atlas.Lib.Parties
import Atlas.Lib.Run

/-! The per-thread resume lock: a map from thread id to a reference-counted lock entry, and one lease for
    each call that passed the lock. The guarded sections and each acquire and release of a `Lock` are the
    atomic steps, so a list of steps is an interleaving of any number of callers. A caller counts for an
    entry from the guarded section that bumps the count to the one that drops it, and owns the lock from
    its acquire to its release; `LockInv` says that map, counts and lock words are exactly what these
    callers make them. -/

namespace Atlas

open LabelledRun Parties

/-- `_LockEntry`: a `threading.Lock` and the number of callers that refer to it. -/
structure LockEntry where
  locked : Bool := false
  refs : ℤ := 0

/-- Where a caller stands: blocked in `acquire_resume_lock`, with a lease it has not released, or between
    the three steps of the one `release` that found `_released` unset. -/
inductive LeasePhase where
  | waiting
  | held
  | flagged   -- `_released` is set, the lock is not released yet
  | unlocked  -- the lock is released, the count not dropped yet
  | done
  | raised    -- `Lock.release` raised: the lock was not locked
  deriving DecidableEq, Repr

/-- The caller is counted in its entry's `refs`. -/
def LeasePhase.counted : LeasePhase → Bool
  | .waiting | .held | .flagged | .unlocked => true
  | .done | .raised => false

/-- The caller has locked the entry's lock and not unlocked it. -/
def LeasePhase.owns : LeasePhase → Bool
  | .held | .flagged => true
  | _ => false

/-- A call of `acquire_resume_lock` and the `ResumeLease` it returns: the thread id and the entry both
    refer to. -/
structure ResumeLease where
  threadId : String
  entry : ℕ
  phase : LeasePhase

/-- The caller counts for, or owns, the entry of a thread. -/
def ResumeLease.countedFor (t : String) (x : ResumeLease) : Bool := x.phase.counted && x.threadId == t
def ResumeLease.ownsFor (t : String) (x : ResumeLease) : Bool := x.phase.owns && x.threadId == t
def ResumeLease.heldFor (t : String) (x : ResumeLease) : Bool := x.phase == .held && x.threadId == t

/-- `_entries` with the entry objects by identity, of which `minted` were made, and all callers. -/
structure LockTable where
  entries : Dict String ℕ := Dict.empty
  object : ℕ → LockEntry := fun _ => {}
  minted : ℕ := 0
  leases : List ResumeLease := []

inductive LockStep where
  | enter (threadId : String)
  | lock (i : ℕ)
  | release (i : ℕ)
  | unlock (i : ℕ)
  | decrement (i : ℕ)
  deriving DecidableEq, Repr

namespace LockTable

/-- The entry of a thread, made where there is none. -/
def mint (s : LockTable) (t : String) : ℕ × LockTable :=
  match s.entries.get? t with
  | some e => (e, s)
  | none =>
    (s.minted, { s with
      entries := s.entries.set t s.minted
      object := Function.update s.object s.minted {}
      minted := s.minted + 1 })

/-- Change an entry object and the phase of one caller. -/
def put (s : LockTable) (i : ℕ) (x : ResumeLease) (p : LeasePhase) (o : LockEntry) : LockTable :=
  { s with
    object := Function.update s.object x.entry o
    leases := s.leases.set i { x with phase := p } }

/-- The guarded section of `acquire_resume_lock`. -/
def enter (s : LockTable) (t : String) : LockTable :=
  let (e, s) := s.mint t
  { s with
    object := Function.update s.object e { s.object e with refs := (s.object e).refs + 1 }
    leases := s.leases ++ [⟨t, e, .waiting⟩] }

/-- `entry.lock.acquire()`, enabled while the lock is free. -/
def lock (s : LockTable) (i : ℕ) (x : ResumeLease) : Option LockTable :=
  if x.phase = .waiting ∧ (s.object x.entry).locked = false then
    some (s.put i x .held { s.object x.entry with locked := true })
  else none

/-- The section of `release` under `_release_guard`; a lease that is not yet made cannot be released. -/
def release (s : LockTable) (i : ℕ) (x : ResumeLease) : Option LockTable :=
  match x.phase with
  | .waiting => none
  | .held => some (s.put i x .flagged (s.object x.entry))
  | _ => some s

/-- `self._entry.lock.release()`, which raises when the lock is free. -/
def unlock (s : LockTable) (i : ℕ) (x : ResumeLease) : Option LockTable :=
  match x.phase with
  | .flagged =>
    if (s.object x.entry).locked then
      some (s.put i x .unlocked { s.object x.entry with locked := false })
    else some (s.put i x .raised (s.object x.entry))
  | _ => none

/-- The guarded section of `release`: drop the count, and the entry with it when it was the last one and
    is still the one in the map. -/
def decrement (s : LockTable) (i : ℕ) (x : ResumeLease) : Option LockTable :=
  match x.phase with
  | .unlocked =>
    let refs := (s.object x.entry).refs - 1
    let s' := s.put i x .done { s.object x.entry with refs := refs }
    if refs = 0 ∧ s'.entries.get? x.threadId = some x.entry then
      some { s' with entries := s'.entries.filterKeys (fun k => k ≠ x.threadId) }
    else some s'
  | _ => none

end LockTable

/-- One atomic step of one caller. -/
def lockStep (s : LockTable) : LockStep → Option LockTable
  | .enter t => some (s.enter t)
  | .lock i => s.leases[i]?.bind (s.lock i)
  | .release i => s.leases[i]?.bind (s.release i)
  | .unlock i => s.leases[i]?.bind (s.unlock i)
  | .decrement i => s.leases[i]?.bind (s.decrement i)

theorem leases_mint (s : LockTable) (t : String) : (s.mint t).2.leases = s.leases := by
  unfold LockTable.mint; split <;> rfl

theorem leases_enter (s : LockTable) (t : String) :
    (s.enter t).leases = s.leases ++ [⟨t, (s.mint t).1, .waiting⟩] := by
  rw [← leases_mint s t]; rfl

theorem leases_decrement {s s' : LockTable} {i : ℕ} {x : ResumeLease} (h : s.decrement i x = some s') :
    s'.leases = s.leases.set i { x with phase := .done } := by
  unfold LockTable.decrement at h
  split at h
  next => simp only at h; split at h <;> cases h <;> rfl
  next => cases h

/-- The kinds of steps, with what each needs and the state it leaves. -/
theorem lockStep_cases {s s' : LockTable} {l : LockStep} (h : lockStep s l = some s') :
    (∃ t, l = .enter t ∧ s' = s.enter t) ∨
    (∃ i x, l = .lock i ∧ s.leases[i]? = some x ∧ x.phase = .waiting ∧ (s.object x.entry).locked = false ∧
      s' = s.put i x .held { s.object x.entry with locked := true }) ∨
    (∃ i x, l = .release i ∧ s.leases[i]? = some x ∧ x.phase = .held ∧
      s' = s.put i x .flagged (s.object x.entry)) ∨
    (∃ i, l = .release i ∧ s' = s) ∨
    (∃ i x, l = .unlock i ∧ s.leases[i]? = some x ∧ x.phase = .flagged ∧ (s.object x.entry).locked = true ∧
      s' = s.put i x .unlocked { s.object x.entry with locked := false }) ∨
    (∃ i x, l = .unlock i ∧ s.leases[i]? = some x ∧ x.phase = .flagged ∧ (s.object x.entry).locked = false ∧
      s' = s.put i x .raised (s.object x.entry)) ∨
    ∃ i x, l = .decrement i ∧ s.leases[i]? = some x ∧ x.phase = .unlocked ∧ s.decrement i x = some s' := by
  cases l with
  | enter t => cases h; exact Or.inl ⟨t, rfl, rfl⟩
  | lock i =>
    obtain ⟨x, hx, h⟩ := Option.bind_eq_some_iff.mp h
    unfold LockTable.lock at h
    split at h
    next hc => cases h; exact Or.inr (Or.inl ⟨i, x, rfl, hx, hc.1, hc.2, rfl⟩)
    next => cases h
  | release i =>
    obtain ⟨x, hx, h⟩ := Option.bind_eq_some_iff.mp h
    unfold LockTable.release at h
    split at h
    next => cases h
    next hp => cases h; exact Or.inr (Or.inr (Or.inl ⟨i, x, rfl, hx, hp, rfl⟩))
    next => cases h; exact Or.inr (Or.inr (Or.inr (Or.inl ⟨i, rfl, rfl⟩)))
  | unlock i =>
    obtain ⟨x, hx, h⟩ := Option.bind_eq_some_iff.mp h
    unfold LockTable.unlock at h
    split at h
    next hp =>
      split at h
      next hl =>
        cases h; exact Or.inr (Or.inr (Or.inr (Or.inr (Or.inl ⟨i, x, rfl, hx, hp, hl, rfl⟩))))
      next hl =>
        cases h
        exact Or.inr (Or.inr (Or.inr (Or.inr (Or.inr (Or.inl
          ⟨i, x, rfl, hx, hp, Bool.not_eq_true _ ▸ hl, rfl⟩)))))
    next => cases h
  | decrement i =>
    obtain ⟨x, hx, h⟩ := Option.bind_eq_some_iff.mp h
    refine Or.inr (Or.inr (Or.inr (Or.inr (Or.inr (Or.inr ⟨i, x, rfl, hx, ?_, h⟩)))))
    unfold LockTable.decrement at h
    split at h
    next hp => exact hp
    next => cases h

/-- The caller that takes a step of the lock, but for one that arrives. -/
def LockStep.caller? : LockStep → Option ℕ
  | .enter _ => none
  | .lock i | .release i | .unlock i | .decrement i => some i

/-- A caller is where it was, unless the step is its own. -/
theorem get_of_lockStep {s s' : LockTable} {i : ℕ} {x : ResumeLease} {l : LockStep}
    (hx : s.leases[i]? = some x) (hl : l.caller? ≠ some i)
    (hs : lockStep s l = some s') : s'.leases[i]? = some x := by
  have hput : ∀ {j y} (p : LeasePhase), s.leases[j]? = some y → j ≠ i →
      (s.leases.set j { y with phase := p })[i]? = some x := by
    intro j y p hy hj
    rw [get_move hy, if_neg (Ne.symm hj), hx]
  have hne : ∀ {j}, l.caller? = some j → j ≠ i := fun hj hji => hl (hji ▸ hj)
  obtain ⟨t, -, rfl⟩ | ⟨j, y, rfl, hy, -, -, rfl⟩ | ⟨j, y, rfl, hy, -, rfl⟩ | ⟨j, -, rfl⟩ |
    ⟨j, y, rfl, hy, -, -, rfl⟩ | ⟨j, y, rfl, hy, -, -, rfl⟩ | ⟨j, y, rfl, hy, -, hd⟩ := lockStep_cases hs
  · rw [leases_enter, List.getElem?_append_left (lt_length_of_get hx), hx]
  · exact hput _ hy (hne rfl)
  · exact hput _ hy (hne rfl)
  · exact hx
  · exact hput _ hy (hne rfl)
  · exact hput _ hy (hne rfl)
  · rw [leases_decrement hd]
    exact hput _ hy (hne rfl)

/-! ### The invariant -/

/-- Map, counts and lock words are what the callers in progress make them. -/
structure LockCore (s : LockTable) : Prop where
  fresh : ∀ t e, s.entries.get? t = some e → e < s.minted
  own : ∀ t t' e, s.entries.get? t = some e → s.entries.get? t' = some e → t = t'
  stored : ∀ x ∈ s.leases, x.phase.counted = true → s.entries.get? x.threadId = some x.entry
  refs : ∀ t e, s.entries.get? t = some e → (s.object e).refs = s.leases.countP (·.countedFor t)
  word : ∀ t e, s.entries.get? t = some e →
    (s.object e).locked.toNat = s.leases.countP (·.ownsFor t)
  noRaise : ∀ x ∈ s.leases, x.phase ≠ .raised

/-- And every entry in the map is in use. -/
structure LockInv (s : LockTable) : Prop extends LockCore s where
  used : ∀ t e, s.entries.get? t = some e → 0 < s.leases.countP (·.countedFor t)

namespace LockInv

variable {s s' : LockTable} {t : String} {i : ℕ} {x : ResumeLease}

theorem initial : LockInv {} where
  fresh _ _ h := by cases h
  own _ _ _ h := by cases h
  stored _ h := by cases h
  used _ _ h := by cases h
  refs _ _ h := by cases h
  word _ _ h := by cases h
  noRaise _ h := by cases h

theorem counted_of_owns {p : LeasePhase} (h : p.owns = true) : p.counted = true := by
  cases p <;> first | rfl | cases h

/-- The entry of an owner is locked. -/
theorem locked_of_owns (h : LockInv s) (hx : s.leases[i]? = some x) (hown : x.phase.owns = true) :
    (s.object x.entry).locked = true := by
  have hst := h.stored x (List.mem_of_getElem? hx) (counted_of_owns hown)
  have hpos := countP_pos_of_get (·.ownsFor x.threadId) hx (by simp [ResumeLease.ownsFor, hown])
  rw [← h.word _ _ hst] at hpos
  cases hl : (s.object x.entry).locked with
  | true => rfl
  | false => rw [hl] at hpos; exact absurd hpos (by decide)

/-- A caller that stays counted may change its phase together with the lock word of its entry. -/
theorem put (h : LockInv s) (hx : s.leases[i]? = some x) {p : LeasePhase} {o : LockEntry}
    (hact : x.phase.counted = true) (hp : p.counted = true) (hrefs : o.refs = (s.object x.entry).refs)
    (hword : o.locked.toNat + x.phase.owns.toNat = (s.object x.entry).locked.toNat + p.owns.toNat) :
    LockInv (s.put i x p o) := by
  have hst := h.stored x (List.mem_of_getElem? hx) hact
  have hcount : ∀ t, (s.leases.set i { x with phase := p }).countP (·.countedFor t) =
      s.leases.countP (·.countedFor t) := by
    intro t
    have hmove := countP_move (·.countedFor t) { x with phase := p } hx
    have hsame : ResumeLease.countedFor t { x with phase := p } = x.countedFor t := by
      simp only [ResumeLease.countedFor, hact, hp]
    rw [hsame] at hmove
    exact Nat.add_right_cancel hmove
  have hobj : ∀ t e, s.entries.get? t = some e → t ≠ x.threadId → e ≠ x.entry := by
    rintro t e he ht rfl
    exact ht (h.own _ _ _ he hst)
  refine ⟨⟨h.fresh, h.own, ?_, ?_, ?_, ?_⟩, ?_⟩
  · exact forall_move h.stored fun _ => hst
  · intro t e he
    simp only [LockTable.put, hcount]
    rw [← h.refs t e he]
    by_cases hee : e = x.entry
    · subst hee; rw [Function.update_self, hrefs]
    · rw [Function.update_of_ne hee]
  · intro t e he
    have hmove := countP_move (·.ownsFor t) { x with phase := p } hx
    have hold := h.word t e he
    simp only [LockTable.put] at he ⊢
    by_cases ht : t = x.threadId
    · subst ht
      obtain rfl : e = x.entry := Option.some.inj (he.symm.trans hst)
      simp only [ResumeLease.ownsFor, beq_self_eq_true, Bool.and_true] at hmove hold ⊢
      rw [Function.update_self]
      omega
    · have hne : (x.threadId == t) = false := by simpa using Ne.symm ht
      simp only [ResumeLease.ownsFor, hne, Bool.and_false, Bool.toNat_false] at hmove hold ⊢
      rw [Function.update_of_ne (hobj t e he ht)]
      omega
  · refine forall_move h.noRaise ?_
    rintro rfl
    cases hp
  · intro t e he
    rw [LockTable.put, hcount]; exact h.used t e he

/-- A thread without an entry has no caller. -/
theorem countedFor_eq_zero (h : LockInv s) (ht : s.entries.get? t = none) :
    s.leases.countP (·.countedFor t) = 0 ∧ s.leases.countP (·.ownsFor t) = 0 := by
  have hnone : ∀ x ∈ s.leases, x.threadId = t → x.phase.counted = false := by
    intro x hx hxt
    cases hc : x.phase.counted with
    | false => rfl
    | true =>
      have := h.stored x hx hc
      rw [hxt, ht] at this
      cases this
  refine ⟨List.countP_eq_zero.mpr fun x hx hc => ?_, List.countP_eq_zero.mpr fun x hx hc => ?_⟩
  · obtain ⟨hc, hxt⟩ : x.phase.counted = true ∧ x.threadId = t := by simpa [ResumeLease.countedFor] using hc
    rw [hnone x hx hxt] at hc
    cases hc
  · obtain ⟨hc, hxt⟩ : x.phase.owns = true ∧ x.threadId = t := by simpa [ResumeLease.ownsFor] using hc
    have := counted_of_owns hc
    rw [hnone x hx hxt] at this
    cases this


/-- Making the entry of a thread that has none leaves everything else as it is. -/
theorem mint (h : LockInv s) (t : String) :
    LockCore (s.mint t).2 ∧ (s.mint t).2.entries.get? t = some (s.mint t).1 ∧
      ∀ t', t' ≠ t → (s.mint t).2.entries.get? t' = s.entries.get? t' := by
  cases ht : s.entries.get? t with
  | some e =>
    have hm : s.mint t = (e, s) := by simp only [LockTable.mint, ht]
    rw [hm]
    exact ⟨h.toLockCore, ht, fun _ _ => rfl⟩
  | none =>
    obtain ⟨hcounted, howns⟩ := h.countedFor_eq_zero ht
    simp only [LockTable.mint, ht]
    refine ⟨⟨?_, ?_, ?_, ?_, ?_, h.noRaise⟩, Dict.get?_set_self _ _ _, fun t' ht' => Dict.get?_set_ne _ _ ht'⟩
    · intro t' e he
      rw [Dict.get?_set] at he
      split at he
      next => cases he; exact Nat.lt_succ_self _
      next => exact Nat.lt_succ_of_lt (h.fresh t' e he)
    · -- the new address is past all addresses in the map
      intro t₁ t₂ e h₁ h₂
      rw [Dict.get?_set] at h₁ h₂
      split at h₁ <;> split at h₂
      next h₁' h₂' => rw [h₁', h₂']
      next => cases h₁; exact absurd (h.fresh _ _ h₂) (lt_irrefl _)
      next => cases h₂; exact absurd (h.fresh _ _ h₁) (lt_irrefl _)
      next => exact h.own _ _ _ h₁ h₂
    · intro x hx hc
      have hst := h.stored x hx hc
      rw [Dict.get?_set_ne _ _ (by rintro hxt; rw [hxt, ht] at hst; cases hst)]
      exact hst
    · intro t' e he
      rw [Dict.get?_set] at he
      split at he
      next ht' => cases he; subst ht'; simp only [Function.update_self, hcounted]; rfl
      next => simp only [Function.update_of_ne (h.fresh t' e he).ne]; exact h.refs t' e he
    · intro t' e he
      rw [Dict.get?_set] at he
      split at he
      next ht' => cases he; subst ht'; simp only [Function.update_self, howns]; rfl
      next => simp only [Function.update_of_ne (h.fresh t' e he).ne]; exact h.word t' e he

/-- A new caller is counted before it waits. -/
theorem enter (h : LockInv s) (t : String) : LockInv (s.enter t) := by
  obtain ⟨hcore, hget, hother⟩ := h.mint t
  have hleases := leases_mint s t
  unfold LockTable.enter
  generalize s.mint t = m at hcore hget hother hleases ⊢
  obtain ⟨e, s₁⟩ := m
  simp only at hcore hget hother hleases ⊢
  have hne : ∀ t' e', s₁.entries.get? t' = some e' → t' ≠ t → e' ≠ e := by
    rintro t' e' he' ht' rfl
    exact ht' (hcore.own _ _ _ he' hget)
  refine ⟨⟨hcore.fresh, hcore.own, ?_, ?_, ?_, ?_⟩, ?_⟩
  · intro x hx hc
    rcases List.mem_append.mp hx with hx | hx
    · exact hcore.stored x hx hc
    · rw [List.mem_singleton.mp hx]; exact hget
  · intro t' e' he'
    have hold := hcore.refs t' e' he'
    rw [List.countP_append, List.countP_singleton]
    by_cases ht' : t' = t
    · subst ht'
      obtain rfl : e' = e := Option.some.inj (he'.symm.trans hget)
      simp [ResumeLease.countedFor, LeasePhase.counted, hold]
    · have htt : (t == t') = false := by simpa using Ne.symm ht'
      simp only [Function.update_of_ne (hne t' e' he' ht'), hold]
      simp [ResumeLease.countedFor, LeasePhase.counted, htt]
  · intro t' e' he'
    have hold := hcore.word t' e' he'
    rw [List.countP_append, List.countP_singleton]
    simp only [ResumeLease.ownsFor, LeasePhase.owns, Bool.false_and, Bool.false_eq_true, if_false, add_zero]
      at hold ⊢
    rw [← hold, Function.update_apply]
    split
    next hee => subst hee; rfl
    next => rfl
  · intro x hx
    rcases List.mem_append.mp hx with hx | hx
    · exact hcore.noRaise x hx
    · rw [List.mem_singleton.mp hx]; exact fun hp => by cases hp
  · intro t' e' he'
    rw [List.countP_append, List.countP_singleton]
    by_cases ht' : t' = t
    · subst ht'; simp [ResumeLease.countedFor, LeasePhase.counted]
    · rw [hleases]
      rw [hother t' ht'] at he'
      exact Nat.add_pos_left (h.used t' e' he') _

theorem get?_forget {d : Dict String ℕ} {t t' : String} {e : ℕ}
    (h : (d.filterKeys (fun k => k ≠ t)).get? t' = some e) : t' ≠ t ∧ d.get? t' = some e := by
  rw [Dict.get?_filterKeys] at h
  split at h
  next ht => exact ⟨by simpa using ht, h⟩
  next => cases h

/-- An entry nobody refers to may leave the map. -/
theorem forget (h : LockCore s) (hnone : s.leases.countP (·.countedFor t) = 0)
    (hused : ∀ t' e, t' ≠ t → s.entries.get? t' = some e → 0 < s.leases.countP (·.countedFor t')) :
    LockInv { s with entries := s.entries.filterKeys (fun k => k ≠ t) } where
  fresh t' e he := h.fresh t' e (get?_forget he).2
  own t₁ t₂ e h₁ h₂ := h.own t₁ t₂ e (get?_forget h₁).2 (get?_forget h₂).2
  stored x hx hc := by
    have hxt : x.threadId ≠ t := by
      rintro rfl
      exact List.countP_eq_zero.mp hnone x hx (by simp [ResumeLease.countedFor, hc])
    rw [Dict.get?_filterKeys, if_pos (by simpa using hxt)]
    exact h.stored x hx hc
  refs t' e he := h.refs t' e (get?_forget he).2
  word t' e he := h.word t' e (get?_forget he).2
  noRaise := h.noRaise
  used t' e he := hused t' e (get?_forget he).1 (get?_forget he).2

section done
variable (hx : s.leases[i]? = some x)
include hx

/-- A lease that is done counts for no thread any more. -/
theorem countedFor_done_of_ne (ht : t ≠ x.threadId) :
    (s.leases.set i { x with phase := .done }).countP (·.countedFor t) = s.leases.countP (·.countedFor t) := by
  have hmove := countP_move (·.countedFor t) { x with phase := .done } hx
  have hne : (x.threadId == t) = false := by simpa using Ne.symm ht
  simp only [ResumeLease.countedFor, hne, Bool.and_false, Bool.toNat_false] at hmove ⊢
  omega

theorem countedFor_done_self (hp : x.phase = .unlocked) :
    (s.leases.set i { x with phase := .done }).countP (·.countedFor x.threadId) + 1 =
      s.leases.countP (·.countedFor x.threadId) := by
  have hmove := countP_move (·.countedFor x.threadId) { x with phase := .done } hx
  simpa [ResumeLease.countedFor, hp, LeasePhase.counted] using hmove

/-- Dropping the count keeps what the map and the words say. -/
theorem core_done (h : LockInv s) (hp : x.phase = .unlocked) : LockCore (s.put i x .done
    { s.object x.entry with refs := (s.object x.entry).refs - 1 }) := by
  have hst := h.stored x (List.mem_of_getElem? hx) (by rw [hp]; rfl)
  have hrefs := h.refs _ _ hst
  refine ⟨h.fresh, h.own, ?_, ?_, ?_, forall_move h.noRaise (by simp)⟩
  · exact forall_move h.stored fun _ => hst
  · intro t e he
    simp only [LockTable.put] at he ⊢
    by_cases ht : t = x.threadId
    · subst ht
      obtain rfl : e = x.entry := Option.some.inj (he.symm.trans hst)
      rw [Function.update_self]
      push_cast [← countedFor_done_self hx hp] at hrefs
      simp only [hrefs]; omega
    · have hne : e ≠ x.entry := by rintro rfl; exact ht (h.own _ _ _ he hst)
      rw [Function.update_of_ne hne, countedFor_done_of_ne hx ht]
      exact h.refs t e he
  · intro t e he
    have hmove := countP_move (·.ownsFor t) { x with phase := .done } hx
    have hold := h.word t e he
    simp only [LockTable.put, Function.update_apply]
    simp only [ResumeLease.ownsFor, hp, LeasePhase.owns, Bool.false_and, Bool.toNat_false,
      add_zero] at hmove hold ⊢
    rw [hmove, ← hold]
    split
    next hee => rw [hee]
    next => rfl

/-- The last caller to drop the count takes the entry out of the map, any other leaves it. -/
theorem decrement (h : LockInv s) (hp : x.phase = .unlocked) (hs : s.decrement i x = some s') :
    LockInv s' := by
  have hst := h.stored x (List.mem_of_getElem? hx) (by rw [hp]; rfl)
  have hself := countedFor_done_self hx hp
  have hrefs := h.refs _ _ hst
  unfold LockTable.decrement at hs
  rw [hp] at hs
  simp only at hs
  split at hs
  next hlast =>
    cases hs
    refine forget (core_done hx h hp) ?_ fun t e ht he => ?_
    · have hzero := hlast.1
      simp only [LockTable.put]
      omega
    · simp only [LockTable.put, countedFor_done_of_ne hx ht]
      exact h.used t e he
  next hlast =>
    cases hs
    refine ⟨core_done hx h hp, fun t e he => ?_⟩
    simp only [LockTable.put] at he ⊢
    by_cases ht : t = x.threadId
    · subst ht
      have hne : (s.object x.entry).refs - 1 ≠ 0 := fun hzero => hlast ⟨hzero, hst⟩
      omega
    · rw [countedFor_done_of_ne hx ht]
      exact h.used t e he

end done

theorem step (h : LockInv s) {l : LockStep} (hs : lockStep s l = some s') : LockInv s' := by
  obtain ⟨t, -, rfl⟩ | ⟨i, x, -, hx, hp, hl, rfl⟩ | ⟨i, x, -, hx, hp, rfl⟩ | ⟨i, -, rfl⟩ |
    ⟨i, x, -, hx, hp, hl, rfl⟩ | ⟨i, x, -, hx, hp, hl, rfl⟩ | ⟨i, x, -, hx, hp, hd⟩ := lockStep_cases hs
  · exact h.enter t
  · exact h.put hx (by rw [hp]; rfl) rfl rfl (by rw [hp, hl]; rfl)
  · exact h.put hx (by rw [hp]; rfl) rfl rfl (by rw [hp]; rfl)
  · exact h
  · exact h.put hx (by rw [hp]; rfl) rfl rfl (by rw [hp, hl]; rfl)
  · rw [h.locked_of_owns hx (by rw [hp]; rfl)] at hl
    cases hl
  · exact h.decrement hx hp hd

end LockInv

/-! ### What callers rely on -/

/-- What the lock promises in a state: one unreleased lease per thread; every caller in progress refers to
    the stored entry of its thread, whose count is the number of such callers, so that no other entry is
    made meanwhile; a lease leaves the lock to its owner; and a map with no callers is empty. -/
structure ResumeLockSafe (s : LockTable) : Prop where
  oneLease : ∀ t, s.leases.countP (·.heldFor t) ≤ 1
  oneEntry : ∀ x ∈ s.leases, x.phase.counted = true →
    s.entries.get? x.threadId = some x.entry ∧
    (s.object x.entry).refs = s.leases.countP (·.countedFor x.threadId) ∧
    (s.enter x.threadId).minted = s.minted
  noOp : ∀ i x, s.leases[i]? = some x → x.phase ≠ .waiting → x.phase ≠ .held →
    lockStep s (.release i) = some s
  keeps : ∀ i x, s.leases[i]? = some x → x.phase = .held →
    (s.object x.entry).locked = true ∧ ∀ l s', l ≠ .release i → lockStep s l = some s' →
      s'.leases[i]? = some x ∧ (s'.object x.entry).locked = true
  noRaise : ∀ x ∈ s.leases, x.phase ≠ .raised
  empty : (∀ x ∈ s.leases, x.phase.counted = false) → s.entries.entries = []

/-- A held lease is only ever touched by its own release. -/
theorem held_step {s s' : LockTable} {l : LockStep} {i : ℕ} {x : ResumeLease} (hx : s.leases[i]? = some x)
    (hp : x.phase = .held) (hl : l ≠ .release i) (hs : lockStep s l = some s') :
    s'.leases[i]? = some x := by
  refine get_of_lockStep hx (fun hcaller => ?_) hs
  -- every other step of the holder needs the lease in another phase
  have hphase : ∀ {j y} {p : LeasePhase}, s.leases[j]? = some y → y.phase = p → p ≠ .held → some j ≠ some i := by
    rintro j y p hy rfl hne hji
    cases hji
    rw [hx] at hy
    cases hy
    exact hne hp
  obtain ⟨t, rfl, -⟩ | ⟨j, y, rfl, hy, hyp, -⟩ | ⟨j, y, rfl, -⟩ | ⟨j, rfl, -⟩ | ⟨j, y, rfl, hy, hyp, -⟩ |
    ⟨j, y, rfl, hy, hyp, -⟩ | ⟨j, y, rfl, hy, hyp, -⟩ := lockStep_cases hs
  · cases hcaller
  · exact hphase hy hyp (by decide) hcaller
  · cases hcaller; exact hl rfl
  · cases hcaller; exact hl rfl
  · exact hphase hy hyp (by decide) hcaller
  · exact hphase hy hyp (by decide) hcaller
  · exact hphase hy hyp (by decide) hcaller

/-- No step changes which threads there are callers for, but for the arrival of a new caller. -/
theorem threadId_step {s s' : LockTable} {l : LockStep} {t : String} (hs : lockStep s l = some s')
    (hl : ∀ t', l = .enter t' → t' = t) (h : ∀ x ∈ s.leases, x.threadId = t) :
    ∀ x ∈ s'.leases, x.threadId = t := by
  have hput : ∀ {j y} (p : LeasePhase), s.leases[j]? = some y →
      ∀ x ∈ s.leases.set j { y with phase := p }, x.threadId = t := by
    intro j y p hy
    have hyt : y.threadId = t := h y (List.mem_of_getElem? hy)
    exact forall_move h hyt
  obtain ⟨t', ht', rfl⟩ | ⟨j, y, -, hy, -, -, rfl⟩ | ⟨j, y, -, hy, -, rfl⟩ | ⟨j, -, rfl⟩ |
    ⟨j, y, -, hy, -, -, rfl⟩ | ⟨j, y, -, hy, -, -, rfl⟩ | ⟨j, y, -, hy, -, hd⟩ := lockStep_cases hs
  · intro x hx
    rw [leases_enter] at hx
    rcases List.mem_append.mp hx with hx | hx
    · exact h x hx
    · rw [List.mem_singleton.mp hx]; exact hl t' ht'
  · exact hput _ hy
  · exact hput _ hy
  · exact h
  · exact hput _ hy
  · exact hput _ hy
  · rw [leases_decrement hd]; exact hput _ hy

theorem LockInv.safe {s : LockTable} (h : LockInv s) : ResumeLockSafe s where
  oneLease t := by
    by_contra hlt
    have hle : s.leases.countP (·.heldFor t) ≤ s.leases.countP (·.ownsFor t) := by
      refine List.countP_mono_left fun x _ hx => ?_
      obtain ⟨hp, hxt⟩ : x.phase = .held ∧ x.threadId = t := by simpa [ResumeLease.heldFor] using hx
      simp [ResumeLease.ownsFor, hp, LeasePhase.owns, hxt]
    cases ht : s.entries.get? t with
    | none => have := (h.countedFor_eq_zero ht).2; omega
    | some e =>
      have hword := h.word t e ht
      have := Bool.toNat_le (s.object e).locked
      omega
  oneEntry x hx hc := by
    have hst := h.stored x hx hc
    refine ⟨hst, h.refs _ _ hst, ?_⟩
    simp only [LockTable.enter, LockTable.mint, hst]
  noOp i x hx hw hh := by
    simp only [lockStep, hx, Option.bind_some, LockTable.release]
  keeps i x hx hp := by
    have howns : x.phase.owns = true := by rw [hp]; rfl
    refine ⟨h.locked_of_owns hx howns, fun l s' hl hs => ?_⟩
    have hx' := held_step hx hp hl hs
    exact ⟨hx', (h.step hs).locked_of_owns hx' howns⟩
  noRaise := h.noRaise
  empty hnone := by
    rw [List.eq_nil_iff_forall_not_mem]
    rintro ⟨t, e⟩ hmem
    obtain ⟨x, hx, hc⟩ := List.countP_pos_iff.mp (h.used t e (Dict.get?_eq_some_iff.mpr hmem))
    rw [ResumeLease.countedFor, hnone x hx] at hc
    cases hc

/-- Whatever the callers do, the lock keeps its promises in every state. -/
theorem resumeLock_safe (ls : List LockStep) : Always lockStep ResumeLockSafe {} ls :=
  fun _ _ _ hrun => (invariant_of_exec (fun _ _ _ h hs => LockInv.step h hs) LockInv.initial hrun).safe

-- the stale second release of the first lease leaves the lock to the second caller
example : ((exec lockStep {} [.enter "thr", .lock 0, .enter "thr", .release 0, .unlock 0, .lock 1,
    .release 0, .decrement 0]).map fun s => (s.entries.entries, (s.object 0).locked, (s.object 0).refs,
      s.leases.map (·.phase))) = some ([("thr", 0)], true, 1, [.done, .held]) := by decide

end Atlas
