import Atlas.Lib.Parties
import Atlas.Lib.Run
import Atlas.Governance.Chain

/-! The audit log in memory, shared by the request handlers of a thread pool. An append reads the tail,
    computes the link and appends it to the list, and nothing keeps the three together: each is an atomic
    step here, so a list of steps is an interleaving of any number of appends. What a handler has read is
    the last record of a prefix of the list (`MemoryInv`); its link fits where that prefix is still the
    whole list and nowhere else (`linked_append_iff`). So no event is lost or recorded twice, but the
    chain verifies exactly in the runs in which no append comes between another one's read and append. -/

namespace Atlas

open HashChain LabelledRun

/-- Where a call of `_append_event` stands. -/
inductive MemoryPhase where
  | started
  | read (tail : Option ChainedAuditRecord)
  | linked (tail : Option ChainedAuditRecord) (record : ChainedAuditRecord)
  | returned

def MemoryPhase.isReturned : MemoryPhase → Bool
  | returned => true
  | _ => false

/-- One call of `_append_event`. -/
structure MemoryAppend where
  event : AuditEvent
  phase : MemoryPhase

/-- `InMemoryAuditLog`: its records, and the calls so far. -/
structure MemoryLog where
  records : List ChainedAuditRecord := []
  calls : List MemoryAppend := []

inductive MemoryStep where
  | start (event : AuditEvent)
  | readTail (i : ℕ)
  | link (i : ℕ)
  | append (i : ℕ)

namespace MemoryLog

/-- Call `i` goes on to a phase. -/
def move (s : MemoryLog) (i : ℕ) (call : MemoryAppend) (p : MemoryPhase) : MemoryLog :=
  { s with calls := s.calls.set i { call with phase := p } }

/-- `tail = self._records[-1] if self._records else None`. -/
def readTail (s : MemoryLog) (i : ℕ) (call : MemoryAppend) : Option MemoryLog :=
  match call.phase with
  | .started => some (s.move i call (.read s.records.getLast?))
  | _ => none

/-- `record = self.link(tail, event)`. -/
def computeLink (sha : Sha256) (s : MemoryLog) (i : ℕ) (call : MemoryAppend) : Option MemoryLog :=
  match call.phase with
  | .read tail => some (s.move i call (.linked tail (link sha tail call.event)))
  | _ => none

/-- `self._records.append(record)`. -/
def append (s : MemoryLog) (i : ℕ) (call : MemoryAppend) : Option MemoryLog :=
  match call.phase with
  | .linked _ record => some { s.move i call .returned with records := s.records ++ [record] }
  | _ => none

/-- The events of the calls that returned. -/
def recordedEvents (s : MemoryLog) : List AuditEvent :=
  (s.calls.filter (fun call => call.phase.isReturned)).map (·.event)

end MemoryLog

/-- One step of one call. -/
def memoryStep (sha : Sha256) (s : MemoryLog) : MemoryStep → Option MemoryLog
  | .start event => some { s with calls := s.calls ++ [⟨event, .started⟩] }
  | .readTail i => s.calls[i]?.bind (s.readTail i)
  | .link i => s.calls[i]?.bind (s.computeLink sha i)
  | .append i => s.calls[i]?.bind (s.append i)

/-- Every event whose call returned is in the list once, and nothing else is. -/
def RecordedOnce (s : MemoryLog) : Prop := (s.records.map Record.event).Perm s.recordedEvents

/-- What the contract of `_append_event` asks of a log: it verifies, and no event is lost. -/
structure Sound (sha : Sha256) (s : MemoryLog) : Prop where
  verified : (verifyChain sha s.records).ok = true
  recorded : RecordedOnce s

/-- The step is no append, or the last record is still the one its call has read: no other call has
    appended since. -/
def Undisturbed (s : MemoryLog) : MemoryStep → Prop
  | .append i => ∀ event tail record, s.calls[i]? = some ⟨event, .linked tail record⟩ →
      s.records.getLast? = tail
  | _ => True

/-! ### What a call has read -/

variable {sha : Sha256}

/-- What a call has read was the last record, and what it has computed is the link to it. -/
def MemoryAppend.Seen (sha : Sha256) (records : List ChainedAuditRecord) (call : MemoryAppend) : Prop :=
  match call.phase with
  | .read tail => ∃ k ≤ records.length, tail = (records.take k).getLast?
  | .linked tail record => (∃ k ≤ records.length, tail = (records.take k).getLast?) ∧
      record = link sha tail call.event
  | _ => True

theorem MemoryAppend.Seen.append {records : List ChainedAuditRecord} {call : MemoryAppend}
    (h : call.Seen sha records) (record : ChainedAuditRecord) : call.Seen sha (records ++ [record]) := by
  have hgrow : ∀ {tail : Option ChainedAuditRecord},
      (∃ k ≤ records.length, tail = (records.take k).getLast?) →
        ∃ k ≤ (records ++ [record]).length, tail = ((records ++ [record]).take k).getLast? := by
    rintro tail ⟨k, hk, rfl⟩
    exact ⟨k, by simp; omega, by rw [List.take_append_of_le_length hk]⟩
  obtain ⟨event, phase⟩ := call
  cases phase with
  | read tail => exact hgrow h
  | linked tail computed => exact ⟨hgrow h.1, h.2⟩
  | started | returned => trivial

/-- The link to the last record of a prefix continues a chain only if the prefix is all of it. -/
theorem linked_append_iff {records : List ChainedAuditRecord} {k : ℕ} (event : AuditEvent)
    (hl : Linked (computeEventHash sha) 0 GENESIS_HASH records) (hk : k ≤ records.length) :
    Linked (computeEventHash sha) 0 GENESIS_HASH
        (records ++ [link sha (records.take k).getLast? event]) ↔
      records.getLast? = (records.take k).getLast? := by
  constructor
  · intro h
    obtain ⟨-, hseq, -⟩ := linked_append.mp h
    have hlength : k = records.length := by
      cases k with
      | zero =>
        have hfirst : (link sha (records.take 0).getLast? event).seq = 0 := rfl
        rw [hfirst] at hseq
        omega
      | succ k =>
        have hlast : (records.take (k + 1)).getLast? = some records[k] := by
          rw [List.take_add_one, List.getElem?_eq_getElem hk, Option.toList_some, List.getLast?_concat]
        have hnext : (link sha (some records[k]) event).seq = records[k].seq + 1 := rfl
        have hplace := (get_of_linked hl (List.getElem?_eq_getElem hk)).1
        rw [hlast, hnext] at hseq
        omega
    rw [hlength, List.take_length]
  · intro h
    rw [← h]
    exact linked_append_next hl event

/-! ### The invariant -/

/-- Nothing is lost, whatever the order of the steps. -/
structure MemoryInv (sha : Sha256) (s : MemoryLog) : Prop where
  recorded : RecordedOnce s
  seen : ∀ call ∈ s.calls, call.Seen sha s.records

/-- A step starts a call, appends the record of one, or moves one that has then seen a prefix. -/
theorem memoryStep_cases {s s' : MemoryLog} {l : MemoryStep} (h : memoryStep sha s l = some s') :
    (∃ event, l = .start event ∧ s' = { s with calls := s.calls ++ [⟨event, .started⟩] }) ∨
    (∃ i event tail record, l = .append i ∧ s.calls[i]? = some ⟨event, .linked tail record⟩ ∧
      s' = { s.move i ⟨event, .linked tail record⟩ .returned with records := s.records ++ [record] }) ∨
    (∃ i call p, (∀ j, l ≠ .append j) ∧ s.calls[i]? = some call ∧ call.phase.isReturned = false ∧
      p.isReturned = false ∧ s' = s.move i call p ∧
      (call.Seen sha s.records → (MemoryAppend.mk call.event p).Seen sha s.records)) := by
  cases l with
  | start event => exact Or.inl ⟨event, rfl, (Option.some.inj h).symm⟩
  | readTail i =>
    obtain ⟨⟨event, phase⟩, hcall, hs⟩ := Option.bind_eq_some_iff.mp h
    cases phase with
    | started =>
      cases hs
      refine Or.inr (Or.inr ⟨i, _, _, by simp, hcall, rfl, rfl, rfl, fun _ => ?_⟩)
      exact ⟨s.records.length, le_rfl, by rw [List.take_length]⟩
    | read | linked | returned => cases hs
  | link i =>
    obtain ⟨⟨event, phase⟩, hcall, hs⟩ := Option.bind_eq_some_iff.mp h
    cases phase with
    | read tail =>
      cases hs
      exact Or.inr (Or.inr ⟨i, _, _, by simp, hcall, rfl, rfl, rfl, fun hseen => ⟨hseen, rfl⟩⟩)
    | started | linked | returned => cases hs
  | append i =>
    obtain ⟨⟨event, phase⟩, hcall, hs⟩ := Option.bind_eq_some_iff.mp h
    cases phase with
    | linked tail record =>
      cases hs
      exact Or.inr (Or.inl ⟨i, event, tail, record, rfl, hcall, rfl⟩)
    | started | read | returned => cases hs

theorem MemoryInv.empty : MemoryInv sha {} where
  recorded := List.Perm.nil
  seen call h := by simp at h

/-- Every step keeps the invariant. -/
theorem memoryStep_inv {s s' : MemoryLog} {l : MemoryStep} (hinv : MemoryInv sha s)
    (h : memoryStep sha s l = some s') : MemoryInv sha s' := by
  rcases memoryStep_cases h with ⟨event, -, rfl⟩ | ⟨i, event, tail, record, -, hcall, rfl⟩ |
    ⟨i, call, p, -, hcall, hnot, hp, rfl, hseen⟩
  · constructor
    · rw [RecordedOnce, MemoryLog.recordedEvents, List.filter_append, List.map_append]
      exact hinv.recorded.trans (List.Perm.of_eq (List.append_nil _).symm)
    · intro call hmem
      rcases List.mem_append.mp hmem with hmem | hmem
      · exact hinv.seen call hmem
      · rw [List.mem_singleton.mp hmem]
        trivial
  · have hrecord := hinv.seen _ (List.mem_of_getElem? hcall)
    constructor
    · have hfilter := Parties.filter_move_perm (y := MemoryAppend.mk event .returned)
        (p := fun call : MemoryAppend => call.phase.isReturned) hcall rfl rfl
      have hevents := hfilter.map (fun call : MemoryAppend => call.event)
      have hevent : record.event = event := by
        rw [hrecord.2]
        rfl
      rw [RecordedOnce, List.map_append, List.map_singleton, hevent]
      refine (List.perm_append_singleton _ _).trans ?_
      exact (hinv.recorded.cons event).trans hevents.symm
    · refine Parties.forall_move (fun call hmem => ?_) trivial
      exact (hinv.seen call hmem).append record
  · constructor
    · have hfilter := Parties.filter_move (y := MemoryAppend.mk call.event p)
        (p := fun call : MemoryAppend => call.phase.isReturned) hcall hnot hp
      exact hinv.recorded.trans (List.Perm.of_eq (congrArg (List.map _) hfilter.symm))
    · exact Parties.forall_move hinv.seen (hseen (hinv.seen call (List.mem_of_getElem? hcall)))

/-- No event is lost and none is recorded twice, in any interleaving. -/
theorem always_recordedOnce (sha : Sha256) (ls : List MemoryStep) :
    Always (memoryStep sha) RecordedOnce {} ls :=
  fun _ _ _ hrun => (invariant_of_exec (fun _ _ _ hinv hstep => memoryStep_inv hinv hstep)
    MemoryInv.empty hrun).recorded

/-- A step keeps a verified log verified exactly when it is undisturbed. -/
theorem verified_step_iff {s s' : MemoryLog} {l : MemoryStep} (hinv : MemoryInv sha s)
    (hok : (verifyChain sha s.records).ok = true) (h : memoryStep sha s l = some s') :
    (verifyChain sha s'.records).ok = true ↔ Undisturbed s l := by
  rcases memoryStep_cases h with ⟨event, rfl, rfl⟩ | ⟨i, event, tail, record, rfl, hcall, rfl⟩ |
    ⟨i, call, p, hl, -, -, -, rfl, -⟩
  · exact iff_of_true hok trivial
  · obtain ⟨⟨k, hk, htail⟩, hrecord⟩ := hinv.seen _ (List.mem_of_getElem? hcall)
    have hiff := linked_append_iff event ((verifyChain_ok_iff sha _).mp hok) hk
    rw [verifyChain_ok_iff]
    simp only [hrecord, htail, hiff, Undisturbed]
    constructor
    · intro hlast event' tail' record' hcall'
      rw [hcall] at hcall'
      cases hcall'
      rw [hlast, htail]
    · intro hlast
      rw [hlast _ _ _ hcall, htail]
  · refine iff_of_true hok ?_
    cases l with
    | append j => exact absurd rfl (hl j)
    | start | readTail | link => trivial

/-- The contract holds throughout an interleaving of appends exactly when no call appends between another
    one's read of the tail and its append. No event is lost either way. -/
theorem inMemoryAuditLog_sound_iff (sha : Sha256) (ls : List MemoryStep) :
    (Always (memoryStep sha) (Sound sha) {} ls ↔ Respects (memoryStep sha) Undisturbed {} ls) ∧
      Always (memoryStep sha) RecordedOnce {} ls := by
  refine ⟨?_, always_recordedOnce sha ls⟩
  have hstep : ∀ s l s', MemoryInv sha s ∧ Sound sha s → memoryStep sha s l = some s' →
      ((MemoryInv sha s' ∧ Sound sha s') ↔ Undisturbed s l) := by
    rintro s l s' ⟨hinv, hsound⟩ h
    have hinv' := memoryStep_inv hinv h
    rw [← verified_step_iff hinv hsound.verified h]
    exact ⟨fun h => h.2.verified, fun h => ⟨hinv', h, hinv'.recorded⟩⟩
  have hdisabled : ∀ s l, memoryStep sha s l = none → Undisturbed s l := by
    intro s l hnone
    cases l with
    | append i =>
      intro event tail record hcall
      rw [memoryStep, hcall] at hnone
      cases hnone
    | start | readTail | link => trivial
  rw [← always_iff_respects hstep hdisabled ⟨MemoryInv.empty, rfl, List.Perm.nil⟩]
  constructor
  · intro h done s' hdone hrun
    exact ⟨invariant_of_exec (fun _ _ _ hinv hstep => memoryStep_inv hinv hstep) MemoryInv.empty hrun,
      h done s' hdone hrun⟩
  · exact fun h done s' hdone hrun => (h done s' hdone hrun).2

/-- Two appends that both read the empty log: both records are the first of a chain. -/
theorem not_sound_two_appends : ∃ s, exec (memoryStep sampleSha) {}
    [.start (sampleEvent "0"), .start (sampleEvent "1"), .readTail 0, .readTail 1, .link 0, .link 1,
      .append 0, .append 1] = some s ∧ ¬Sound sampleSha s ∧
    verifyChain sampleSha s.records = ⟨false, some 0, some "non-contiguous seq at index 1"⟩ := by
  refine ⟨_, rfl, fun hsound => absurd hsound.verified ?_, ?_⟩ <;> decide +kernel

end Atlas
