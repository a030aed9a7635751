import Atlas.Lib.Parties
import Atlas.Lib.Run
import Atlas.Governance.Chain
import Atlas.Persistence.Jsonb

/-! The audit log in Postgres. An append is a transaction of several statements, and each statement is an
    atomic step here, so a list of steps is an interleaving of the appends of any number of processes.
    Statements see what is committed when they start. A transaction can end before it commits at any
    point: a statement fails, the process dies, the connection drops; its lock goes with it. Only the
    holder of the advisory lock is past the lock statement, so what it read of the tail is the tail until
    it is done: `AuditInv` says that the table is the chain of the committed events, in some order. -/

namespace Atlas

open HashChain LabelledRun

/-! ### Rows -/

/-- The columns that hold the event. -/
structure EventColumns where
  eventId : String
  ts : DateTime
  eventType : String
  actionId : String
  tool : Option String
  actor : String
  detail : Jsonb

/-- A row of `atlas_audit_log`. -/
structure AuditRow extends EventColumns where
  seq : ℤ
  prevHash : String
  eventHash : String

/-- `AuditEventType(value)`. -/
def AuditEventType.ofValue? (value : String) : Option AuditEventType :=
  [proposed, approved, rejected, executed, replaySkipped, failed, skipped, denied, ingested].find?
    (fun t => t.value == value)

/-- `_row_to_record`: `ts` holds the instant, so its UTC form is the one recorded. -/
def rowToRecord (row : AuditRow) : Except PyError ChainedAuditRecord :=
  match AuditEventType.ofValue? row.eventType with
  | none => .error ⟨"ValueError", Text.reprStr row.eventType ++ " is not a valid AuditEventType"⟩
  | some eventType =>
    match row.detail.load with
    | .obj detail =>
      .ok ⟨row.seq, ⟨row.eventId, row.ts, eventType, row.actionId, row.tool, row.actor, detail⟩,
        row.prevHash, row.eventHash⟩
    | _ => .error ⟨"ValidationError", "Input should be a valid dictionary"⟩

/-- The values `_INSERT` binds for the event. -/
def columnsOf (order : MemberOrder) (event : AuditEvent) : EventColumns where
  eventId := event.eventId
  ts := event.timestamp
  eventType := event.eventType.value
  actionId := event.actionId
  tool := event.tool
  actor := event.actor
  detail := Jsonb.store order (.obj event.detail)

/-- The values `_INSERT` binds. -/
def insertRow (order : MemberOrder) (record : ChainedAuditRecord) (event : AuditEvent) : AuditRow where
  toEventColumns := columnsOf order event
  seq := record.seq
  prevHash := record.prevHash
  eventHash := record.eventHash

/-- The values the columns accept: no text has a NUL. -/
def storable (event : AuditEvent) : Bool :=
  !(textHasNul event.eventId || textHasNul event.actionId || (event.tool.map textHasNul).getD false ||
    textHasNul event.actor || (Json.obj event.detail).hasNul)

/-- `_SELECT_ALL`. -/
def selectAll (rows : List AuditRow) : List AuditRow := Table.orderBy AuditRow.seq rows

/-- `_SELECT_TAIL`. -/
def selectTail (rows : List AuditRow) : Option AuditRow := (Table.orderByDesc AuditRow.seq rows).head?

/-- The tail an append reads: `_row_to_record(tail_row) if tail_row else None`. -/
def readTail (rows : List AuditRow) : Except PyError (Option ChainedAuditRecord) :=
  match selectTail rows with
  | none => .ok none
  | some row => (rowToRecord row).map some

/-- `_load`. -/
def loadRecords (rows : List AuditRow) : Except PyError (List ChainedAuditRecord) :=
  (selectAll rows).mapM rowToRecord

/-! ### Transactions -/

/-- An event as Python holds it: a `dict` has each key once, and a float is its shortest decimal. -/
structure LoggedEvent extends AuditEvent where
  distinct : (Json.obj detail).DistinctKeys
  shortest : ∀ x ∈ (Json.obj detail).floats, x.Shortest

/-- Where the transaction of an `_append_event` stands. -/
inductive AppendPhase where
  | waiting  -- for the advisory lock
  | locked
  | read (tail : Option ChainedAuditRecord)
  | linked (record : ChainedAuditRecord)
  | inserted (row : AuditRow)
  | committed
  | aborted

namespace AppendPhase

/-- The transaction has the advisory lock. -/
def holds : AppendPhase → Bool
  | locked | read _ | linked _ | inserted _ => true
  | waiting | committed | aborted => false

def isCommitted : AppendPhase → Bool
  | committed => true
  | _ => false

/-- The transaction has ended. -/
def ended : AppendPhase → Bool
  | committed | aborted => true
  | _ => false

/-- A row of this position was inserted and is not committed yet. -/
def pending (seq : ℤ) : AppendPhase → Bool
  | inserted row => row.seq == seq
  | _ => false

end AppendPhase

/-- The transaction of one `_append_event`. -/
structure AppendTxn where
  event : LoggedEvent
  phase : AppendPhase

/-- The committed rows, the transaction that has the advisory lock, and all transactions so far. -/
structure AuditDb where
  rows : List AuditRow := []
  lock : Option ℕ := none
  txns : List AppendTxn := []

inductive AppendStep where
  | start (event : LoggedEvent)
  | lock (i : ℕ)
  | readTail (i : ℕ)
  | link (i : ℕ)
  | insert (i : ℕ)
  | commit (i : ℕ)
  | abort (i : ℕ)

namespace AuditDb

/-- Transaction `i` goes on to a phase. -/
def move (s : AuditDb) (i : ℕ) (t : AppendTxn) (p : AppendPhase) : AuditDb :=
  { s with txns := s.txns.set i { t with phase := p } }

/-- The lock as it is after transaction `i` ended. -/
def unlocked (s : AuditDb) (i : ℕ) : Option ℕ := if s.lock = some i then none else s.lock

/-- `ROLLBACK`. -/
def rollback (s : AuditDb) (i : ℕ) (t : AppendTxn) : AuditDb :=
  { s.move i t .aborted with lock := s.unlocked i }

/-- `SELECT pg_advisory_xact_lock(…)`, which waits while another transaction has the lock. -/
def acquire (s : AuditDb) (i : ℕ) (t : AppendTxn) : Option AuditDb :=
  match t.phase with
  | .waiting => if s.lock = none then some { s.move i t .locked with lock := some i } else none
  | _ => none

/-- `_SELECT_TAIL` and the record it is read into. -/
def fetchTail (s : AuditDb) (i : ℕ) (t : AppendTxn) : Option AuditDb :=
  match t.phase with
  | .locked =>
    match readTail s.rows with
    | .ok tail => some (s.move i t (.read tail))
    | .error _ => some (s.rollback i t)
  | _ => none

/-- `self.link(tail, event)`. -/
def computeLink (sha : Sha256) (s : AuditDb) (i : ℕ) (t : AppendTxn) : Option AuditDb :=
  match t.phase with
  | .read tail => some (s.move i t (.linked (link sha tail t.event.toAuditEvent)))
  | _ => none

/-- `_INSERT`: it fails on a text with a NUL and on a `seq` that is taken, and waits for the transaction
    that inserted the same `seq` and has not ended. -/
def insertLink (order : MemberOrder) (s : AuditDb) (i : ℕ) (t : AppendTxn) : Option AuditDb :=
  match t.phase with
  | .linked record =>
    if storable t.event.toAuditEvent = false then some (s.rollback i t)
    else if s.rows.any (fun row => row.seq == record.seq) then some (s.rollback i t)
    else if s.txns.any (fun u => u.phase.pending record.seq) then none
    else some (s.move i t (.inserted (insertRow order record t.event.toAuditEvent)))
  | _ => none

/-- `COMMIT`, which releases the lock. -/
def commit (s : AuditDb) (i : ℕ) (t : AppendTxn) : Option AuditDb :=
  match t.phase with
  | .inserted row =>
    some { s.move i t .committed with rows := s.rows ++ [row], lock := s.unlocked i }
  | _ => none

/-- The transaction ends without a commit. -/
def abort (s : AuditDb) (i : ℕ) (t : AppendTxn) : Option AuditDb :=
  if t.phase.ended then none else some (s.rollback i t)

/-- The events of the transactions that committed. -/
def committedEvents (s : AuditDb) : List AuditEvent :=
  (s.txns.filter (fun t => t.phase.isCommitted)).map (fun t => t.event.toAuditEvent)

/-- The event a step commits. -/
def committedBy (s : AuditDb) : AppendStep → List AuditEvent
  | .commit i => (s.txns[i]?.map (fun t => t.event.toAuditEvent)).toList
  | _ => []

end AuditDb

/-- One statement of one transaction, or its end. -/
def appendStep (sha : Sha256) (order : MemberOrder) (s : AuditDb) : AppendStep → Option AuditDb
  | .start event => some { s with txns := s.txns ++ [⟨event, .waiting⟩] }
  | .lock i => s.txns[i]?.bind (s.acquire i)
  | .readTail i => s.txns[i]?.bind (s.fetchTail i)
  | .link i => s.txns[i]?.bind (s.computeLink sha i)
  | .insert i => s.txns[i]?.bind (s.insertLink order i)
  | .commit i => s.txns[i]?.bind (s.commit i)
  | .abort i => s.txns[i]?.bind (s.abort i)

/-- The events a run appends to the empty table, in the order of their commits. -/
def appended (sha : Sha256) (order : MemberOrder) (ls : List AppendStep) : List AuditEvent :=
  outputs (appendStep sha order) AuditDb.committedBy {} ls

/-! ### The table of a chain -/

variable {sha : Sha256} {order : MemberOrder}

/-- An event as it is read back from its columns. -/
def restoreEvent (order : MemberOrder) (event : AuditEvent) : AuditEvent :=
  match (Json.obj event.detail).restore order with
  | .obj detail => { event with detail := detail }
  | _ => event

/-- The rows of the chain of a list of events. -/
def tableOf (sha : Sha256) (order : MemberOrder) (events : List AuditEvent) : List AuditRow :=
  (recordAll sha events).map (fun record => insertRow order record record.event)

theorem AuditEventType.ofValue?_value (t : AuditEventType) : AuditEventType.ofValue? t.value = some t := by
  cases t <;> decide

/-- A row written by an append reads back as its record, with the event as its columns restore it. -/
theorem rowToRecord_insertRow (record : ChainedAuditRecord) :
    rowToRecord (insertRow order record record.event) = .ok (record.mapEvent (restoreEvent order)) := by
  simp only [rowToRecord, insertRow, columnsOf, AuditEventType.ofValue?_value]
  rfl

theorem linked_recordAll (events : List AuditEvent) :
    Linked (computeEventHash sha) 0 GENESIS_HASH (recordAll sha events) := linked_build GENESIS_HASH events

theorem ascending_tableOf (events : List AuditEvent) :
    (tableOf sha order events).Pairwise (fun a b => a.seq < b.seq) :=
  List.pairwise_map.mpr (pairwise_seq (linked_recordAll events))

theorem selectAll_tableOf (events : List AuditEvent) :
    selectAll (tableOf sha order events) = tableOf sha order events :=
  Table.orderBy_of_ascending (ascending_tableOf events)

theorem loadRecords_tableOf (events : List AuditEvent) : loadRecords (tableOf sha order events) =
    .ok ((recordAll sha events).map (Record.mapEvent (restoreEvent order))) := by
  rw [loadRecords, selectAll_tableOf, tableOf]
  induction recordAll sha events with
  | nil => rfl
  | cons record records ih =>
    rw [List.map_cons, List.mapM_cons, rowToRecord_insertRow, ih]
    rfl

theorem readTail_tableOf (events : List AuditEvent) : readTail (tableOf sha order events) =
    .ok ((recordAll sha events).getLast?.map (Record.mapEvent (restoreEvent order))) := by
  have htail : selectTail (tableOf sha order events) =
      (recordAll sha events).getLast?.map (fun record => insertRow order record record.event) := by
    rw [selectTail, Table.orderByDesc_of_ascending (ascending_tableOf events), List.head?_reverse, tableOf,
      List.getLast?_map]
  rw [readTail, htail]
  cases (recordAll sha events).getLast? with
  | none => rfl
  | some record => simp only [Option.map_some, rowToRecord_insertRow]; rfl

/-- A link needs of the tail its position and its hash only. -/
theorem link_mapEvent (f : AuditEvent → AuditEvent) (tail : Option ChainedAuditRecord) (event : AuditEvent) :
    link sha (tail.map (Record.mapEvent f)) event = link sha tail event := by
  cases tail <;> rfl

/-- The row that follows the tail of a table makes it the table of one event more. -/
theorem tableOf_append {events : List AuditEvent} {tail : Option ChainedAuditRecord} (event : AuditEvent)
    (htail : readTail (tableOf sha order events) = .ok tail) :
    tableOf sha order (events ++ [event]) =
      tableOf sha order events ++ [insertRow order (link sha tail event) event] := by
  rw [readTail_tableOf, Except.ok.injEq] at htail
  rw [← htail, link_mapEvent, tableOf, recordAll, List.foldl_append]
  change (appendEvent sha (recordAll sha events) event).map _ = _
  rw [appendEvent, List.map_append]
  rfl

/-! ### What one step does -/

/-- What a transaction has read or computed agrees with the committed rows. -/
def AppendTxn.Current (sha : Sha256) (order : MemberOrder) (rows : List AuditRow) (t : AppendTxn) : Prop :=
  match t.phase with
  | .read tail => readTail rows = .ok tail
  | .linked record => ∃ tail, readTail rows = .ok tail ∧ record = link sha tail t.event.toAuditEvent
  | .inserted row => ∃ tail, readTail rows = .ok tail ∧
      row = insertRow order (link sha tail t.event.toAuditEvent) t.event.toAuditEvent
  | _ => True

/-- Without the lock a transaction has read nothing. -/
theorem AppendTxn.current_of_not_holds {rows : List AuditRow} {t : AppendTxn}
    (h : t.phase.holds = false) : t.Current sha order rows := by
  obtain ⟨event, phase⟩ := t
  cases phase <;> trivial

/-- The ways transaction `i` changes the database short of a commit. -/
inductive AppendMove (sha : Sha256) (order : MemberOrder) (s : AuditDb) (i : ℕ) (t : AppendTxn) :
    AuditDb → Prop
  | acquired : t.phase.isCommitted = false → s.lock = none →
      AppendMove sha order s i t { s.move i t .locked with lock := some i }
  | advanced (p : AppendPhase) : t.phase.isCommitted = false → t.phase.holds = true →
      p.isCommitted = false → p.holds = true →
      (t.Current sha order s.rows → (AppendTxn.mk t.event p).Current sha order s.rows) →
      AppendMove sha order s i t (s.move i t p)
  | rolledBack : t.phase.isCommitted = false → AppendMove sha order s i t (s.rollback i t)

theorem AppendMove.of_acquire {s s' : AuditDb} {i : ℕ} {t : AppendTxn} (h : s.acquire i t = some s') :
    AppendMove sha order s i t s' := by
  rw [AuditDb.acquire] at h
  split at h
  next hp =>
    split at h
    next hlock => cases h; exact .acquired (by rw [hp]; rfl) hlock
    next => cases h
  next => cases h

theorem AppendMove.of_fetchTail {s s' : AuditDb} {i : ℕ} {t : AppendTxn} (h : s.fetchTail i t = some s') :
    AppendMove sha order s i t s' := by
  rw [AuditDb.fetchTail] at h
  split at h
  next hp =>
    have hnot : t.phase.isCommitted = false := by rw [hp]; rfl
    split at h
    next tail htail => cases h; exact .advanced (.read tail) hnot (by rw [hp]; rfl) rfl rfl (fun _ => htail)
    next => cases h; exact .rolledBack hnot
  next => cases h

theorem AppendMove.of_computeLink {s s' : AuditDb} {i : ℕ} {t : AppendTxn}
    (h : s.computeLink sha i t = some s') : AppendMove sha order s i t s' := by
  rw [AuditDb.computeLink] at h
  split at h
  next tail hp =>
    cases h
    refine .advanced _ (by rw [hp]; rfl) (by rw [hp]; rfl) rfl rfl fun hcur => ?_
    rw [AppendTxn.Current, hp] at hcur
    exact ⟨tail, hcur, rfl⟩
  next => cases h

theorem AppendMove.of_insertLink {s s' : AuditDb} {i : ℕ} {t : AppendTxn}
    (h : s.insertLink order i t = some s') : AppendMove sha order s i t s' := by
  rw [AuditDb.insertLink] at h
  split at h
  next record hp =>
    have hnot : t.phase.isCommitted = false := by rw [hp]; rfl
    split at h
    next => cases h; exact .rolledBack hnot
    next =>
      split at h
      next => cases h; exact .rolledBack hnot
      next =>
        split at h
        next => cases h
        next =>
          cases h
          refine .advanced _ hnot (by rw [hp]; rfl) rfl rfl fun hcur => ?_
          rw [AppendTxn.Current, hp] at hcur
          obtain ⟨tail, htail, rfl⟩ := hcur
          exact ⟨tail, htail, rfl⟩
  next => cases h

theorem AppendMove.of_abort {s s' : AuditDb} {i : ℕ} {t : AppendTxn} (h : s.abort i t = some s') :
    AppendMove sha order s i t s' := by
  rw [AuditDb.abort] at h
  split at h
  next => cases h
  next hended =>
    cases h
    refine .rolledBack ?_
    cases hp : t.phase <;> first | rfl | exact absurd (by rw [hp]; rfl) hended

theorem AuditDb.commit_eq_some {s s' : AuditDb} {i : ℕ} {t : AppendTxn} (h : s.commit i t = some s') :
    ∃ row, t.phase = .inserted row ∧
      s' = { s.move i t .committed with rows := s.rows ++ [row], lock := s.unlocked i } := by
  rw [AuditDb.commit] at h
  split at h
  next row hp => exact ⟨row, hp, (Option.some.inj h).symm⟩
  next => cases h

/-- A step starts a transaction, commits one, or moves one and commits none. -/
theorem appendStep_cases {s s' : AuditDb} {l : AppendStep} (h : appendStep sha order s l = some s') :
    (∃ event, l = .start event ∧ s' = { s with txns := s.txns ++ [⟨event, .waiting⟩] }) ∨
      (∃ i t row, l = .commit i ∧ s.txns[i]? = some t ∧ t.phase = .inserted row ∧
        s' = { s.move i t .committed with rows := s.rows ++ [row], lock := s.unlocked i }) ∨
      s.committedBy l = [] ∧ ∃ i t, s.txns[i]? = some t ∧ AppendMove sha order s i t s' := by
  cases l with
  | start event => exact Or.inl ⟨event, rfl, (Option.some.inj h).symm⟩
  | lock i =>
    obtain ⟨t, ht, hs⟩ := Option.bind_eq_some_iff.mp h
    exact Or.inr (Or.inr ⟨rfl, i, t, ht, .of_acquire hs⟩)
  | readTail i =>
    obtain ⟨t, ht, hs⟩ := Option.bind_eq_some_iff.mp h
    exact Or.inr (Or.inr ⟨rfl, i, t, ht, .of_fetchTail hs⟩)
  | link i =>
    obtain ⟨t, ht, hs⟩ := Option.bind_eq_some_iff.mp h
    exact Or.inr (Or.inr ⟨rfl, i, t, ht, .of_computeLink hs⟩)
  | insert i =>
    obtain ⟨t, ht, hs⟩ := Option.bind_eq_some_iff.mp h
    exact Or.inr (Or.inr ⟨rfl, i, t, ht, .of_insertLink hs⟩)
  | commit i =>
    obtain ⟨t, ht, hs⟩ := Option.bind_eq_some_iff.mp h
    obtain ⟨row, hp, rfl⟩ := AuditDb.commit_eq_some hs
    exact Or.inr (Or.inl ⟨i, t, row, rfl, ht, hp, rfl⟩)
  | abort i =>
    obtain ⟨t, ht, hs⟩ := Option.bind_eq_some_iff.mp h
    exact Or.inr (Or.inr ⟨rfl, i, t, ht, .of_abort hs⟩)

/-! ### The invariant -/

/-- The table is the chain of the events committed so far, and only the holder of the lock has read of
    it. -/
structure AuditInv (sha : Sha256) (order : MemberOrder) (events : List AuditEvent) (s : AuditDb) : Prop where
  table : s.rows = tableOf sha order events
  committed : events.Perm s.committedEvents
  holder : ∀ i, s.lock = some i ↔ ∃ t, s.txns[i]? = some t ∧ t.phase.holds = true
  current : ∀ t ∈ s.txns, t.Current sha order s.rows

theorem AuditInv.empty : AuditInv sha order [] {} where
  table := rfl
  committed := List.Perm.nil
  holder i := by simp
  current t h := by simp at h

variable {events : List AuditEvent} {s s' : AuditDb} {i : ℕ} {t : AppendTxn}

theorem AuditInv.start (hinv : AuditInv sha order events s) (event : LoggedEvent) :
    AuditInv sha order events { s with txns := s.txns ++ [⟨event, .waiting⟩] } where
  table := hinv.table
  committed := by
    rw [AuditDb.committedEvents, List.filter_append, List.map_append]
    exact hinv.committed.trans (List.Perm.of_eq (List.append_nil _).symm)
  holder i := by
    rw [hinv.holder i]
    constructor
    · rintro ⟨t, ht, hholds⟩
      exact ⟨t, by rw [List.getElem?_append_left (Parties.lt_length_of_get ht), ht], hholds⟩
    · rintro ⟨t, ht, hholds⟩
      rcases Parties.get_concat ht with ht | rfl
      · exact ⟨t, ht, hholds⟩
      · exact absurd hholds Bool.false_ne_true
  current t h := by
    rcases List.mem_append.mp h with h | h
    · exact hinv.current t h
    · obtain rfl := List.mem_singleton.mp h; trivial

/-- The lock after transaction `i` moved, where it is for the others what it was. -/
theorem AuditInv.holder_move (hinv : AuditInv sha order events s) (ht : s.txns[i]? = some t)
    {p : AppendPhase} {lock : Option ℕ} (hlock : lock = some i ↔ p.holds = true)
    (hothers : ∀ j, j ≠ i → (lock = some j ↔ s.lock = some j)) (j : ℕ) :
    lock = some j ↔ ∃ u, (s.txns.set i (AppendTxn.mk t.event p))[j]? = some u ∧ u.phase.holds = true := by
  rw [Parties.get_move ht]
  by_cases hj : j = i
  · subst hj
    rw [if_pos rfl, hlock]
    simp
  · rw [if_neg hj, hothers j hj, hinv.holder j]

/-- A move that leaves the rows alone, with the lock as the phases have it. -/
theorem AuditInv.move (hinv : AuditInv sha order events s) (ht : s.txns[i]? = some t) (p : AppendPhase)
    (lock : Option ℕ) (hnot : t.phase.isCommitted = false) (hp : p.isCommitted = false)
    (hlock : lock = some i ↔ p.holds = true) (hothers : ∀ j, j ≠ i → (lock = some j ↔ s.lock = some j))
    (hcur : (AppendTxn.mk t.event p).Current sha order s.rows) :
    AuditInv sha order events { s.move i t p with lock := lock } where
  table := hinv.table
  committed := by
    have hfilter := Parties.filter_move (y := AppendTxn.mk t.event p)
      (p := fun t : AppendTxn => t.phase.isCommitted) ht hnot hp
    exact hinv.committed.trans (List.Perm.of_eq (congrArg (List.map _) hfilter.symm))
  holder := hinv.holder_move ht hlock hothers
  current := Parties.forall_move hinv.current hcur

theorem AuditDb.unlocked_self : s.unlocked i ≠ some i := by
  rw [AuditDb.unlocked]
  split
  next => exact (Option.some_ne_none i).symm
  next h => exact h

theorem AuditDb.unlocked_other {j : ℕ} (hj : j ≠ i) : s.unlocked i = some j ↔ s.lock = some j := by
  rw [AuditDb.unlocked]
  split
  next h => simp [h, Ne.symm hj]
  next => rfl

/-- Only the holder of the lock has read anything, so its commit makes nobody's view stale. -/
theorem AuditInv.commit {row : AuditRow} (hinv : AuditInv sha order events s) (ht : s.txns[i]? = some t)
    (hp : t.phase = .inserted row) : AuditInv sha order (events ++ [t.event.toAuditEvent])
      { s.move i t .committed with rows := s.rows ++ [row], lock := s.unlocked i } where
  table := by
    have hcur := hinv.current t (List.mem_of_getElem? ht)
    rw [AppendTxn.Current, hp] at hcur
    obtain ⟨tail, htail, rfl⟩ := hcur
    rw [hinv.table] at htail
    rw [tableOf_append _ htail, hinv.table]
  committed := by
    have hfilter := Parties.filter_move_perm (y := AppendTxn.mk t.event .committed)
      (p := fun t : AppendTxn => t.phase.isCommitted) ht (by rw [hp]; rfl) rfl
    have hevents := hfilter.map (fun u : AppendTxn => u.event.toAuditEvent)
    refine (List.perm_append_singleton _ events).trans ?_
    exact (hinv.committed.cons t.event.toAuditEvent).trans hevents.symm
  holder := hinv.holder_move ht (iff_of_false AuditDb.unlocked_self Bool.false_ne_true)
    fun _ hj => AuditDb.unlocked_other hj
  current u hu := by
    obtain ⟨j, hj⟩ := List.mem_iff_getElem?.mp hu
    refine AppendTxn.current_of_not_holds ?_
    rcases Parties.get_move_cases hj (by rw [ht]; exact Option.some_ne_none t) with ⟨-, rfl⟩ | ⟨hne, hj⟩
    · rfl
    · have hi : s.lock = some i := (hinv.holder i).mpr ⟨t, ht, by rw [hp]; rfl⟩
      rw [← Bool.not_eq_true]
      intro hholds
      have hlock : s.lock = some j := (hinv.holder j).mpr ⟨u, hj, hholds⟩
      exact hne (Option.some.inj (hlock.symm.trans hi))

/-- Every step keeps the invariant, with the event it commits. -/
theorem appendStep_inv {l : AppendStep} (hinv : AuditInv sha order events s)
    (h : appendStep sha order s l = some s') : AuditInv sha order (events ++ s.committedBy l) s' := by
  rcases appendStep_cases h with ⟨event, rfl, rfl⟩ | ⟨i, t, row, rfl, ht, hp, rfl⟩ | ⟨hnone, i, t, ht, hmove⟩
  · rw [show s.committedBy (.start event) = [] from rfl, List.append_nil]
    exact hinv.start event
  · rw [AuditDb.committedBy, ht]
    exact hinv.commit ht hp
  · rw [hnone, List.append_nil]
    cases hmove with
    | acquired hnot hfree =>
      refine hinv.move ht .locked (some i) hnot rfl (by simp [AppendPhase.holds]) (fun j hj => ?_) trivial
      rw [hfree]
      simp [Ne.symm hj]
    | advanced p hnot hholds hp hpholds hcur =>
      have hlock : s.lock = some i := (hinv.holder i).mpr ⟨t, ht, hholds⟩
      exact hinv.move ht p s.lock hnot hp (iff_of_true hlock hpholds) (fun _ _ => Iff.rfl)
        (hcur (hinv.current t (List.mem_of_getElem? ht)))
    | rolledBack hnot =>
      exact hinv.move ht .aborted (s.unlocked i) hnot rfl
        (iff_of_false AuditDb.unlocked_self Bool.false_ne_true) (fun _ hj => AuditDb.unlocked_other hj)
        trivial

theorem auditInv_of_exec {ls : List AppendStep} (h : exec (appendStep sha order) {} ls = some s) :
    AuditInv sha order (appended sha order ls) s :=
  invariant_of_outputs (fun _ _ _ _ hinv hstep => appendStep_inv hinv hstep) AuditInv.empty h

/-! ### No fork -/

/-- A row is linked to a predecessor. -/
def AuditRow.Follows (row predecessor : AuditRow) : Prop :=
  row.seq = predecessor.seq + 1 ∧ row.prevHash = predecessor.eventHash

/-- The texts that may have been hashed for the committed rows. -/
def AuditDb.hashedTexts (s : AuditDb) : Set String :=
  {text | ∃ row ∈ s.rows, ∃ event ∈ s.committedEvents, text = row.prevHash ++ canonicalEventBytes event}

/-- The committed table is one chain of the committed events. -/
structure ForkFree (sha : Sha256) (order : MemberOrder) (s : AuditDb) : Prop where
  seq : ∀ (k : ℕ) (row : AuditRow), (selectAll s.rows)[k]? = some row → row.seq = k
  genesis : ∀ row : AuditRow, (selectAll s.rows)[0]? = some row → row.prevHash = GENESIS_HASH
  linked : ∀ (k : ℕ) (row row' : AuditRow), (selectAll s.rows)[k]? = some row →
    (selectAll s.rows)[k + 1]? = some row' → row'.prevHash = row.eventHash
  /-- Every committed event has its one row, and no other event has a row. -/
  events : ((selectAll s.rows).map (·.toEventColumns)).Perm (s.committedEvents.map (columnsOf order))
  /-- No two rows are linked to one predecessor. -/
  unforked : ∀ predecessor ∈ s.rows, ∀ (j k : ℕ) (row row' : AuditRow),
    (selectAll s.rows)[j]? = some row → (selectAll s.rows)[k]? = some row' →
    row.Follows predecessor → row'.Follows predecessor → j = k
  /-- Nor do two rows point at one hash, unless SHA-256 collides. -/
  distinct : Set.InjOn sha.hexdigest s.hashedTexts →
    (∀ text ∈ s.hashedTexts, sha.hexdigest text ≠ GENESIS_HASH) →
    ((selectAll s.rows).map (·.prevHash)).Nodup

theorem get_tableOf {events : List AuditEvent} {k : ℕ} {row : AuditRow}
    (h : (tableOf sha order events)[k]? = some row) :
    ∃ record, (recordAll sha events)[k]? = some record ∧ row = insertRow order record record.event := by
  rw [tableOf, List.getElem?_map, Option.map_eq_some_iff] at h
  obtain ⟨record, hrecord, rfl⟩ := h
  exact ⟨record, hrecord, rfl⟩

theorem seq_tableOf {events : List AuditEvent} {k : ℕ} {row : AuditRow}
    (h : (tableOf sha order events)[k]? = some row) : row.seq = k := by
  obtain ⟨record, hrecord, rfl⟩ := get_tableOf h
  exact (get_of_linked (linked_recordAll events) hrecord).1.trans (zero_add _)

theorem map_event_recordAll (events : List AuditEvent) : (recordAll sha events).map Record.event = events :=
  map_event_build GENESIS_HASH events

/-- A record of a log holds one of its events. -/
theorem event_mem_of_mem_recordAll {events : List AuditEvent} {record : ChainedAuditRecord}
    (hrecord : record ∈ recordAll sha events) : record.event ∈ events := by
  have hmem := List.mem_map_of_mem (f := Record.event) hrecord
  rwa [map_event_recordAll] at hmem

theorem columns_tableOf (events : List AuditEvent) :
    (tableOf sha order events).map (·.toEventColumns) = events.map (columnsOf order) := by
  conv_rhs => rw [← @map_event_recordAll sha events, List.map_map]
  rw [tableOf, List.map_map]
  rfl

/-- What was hashed for a table is among the texts of its rows and its events. -/
theorem AuditInv.hashInputs_subset (hinv : AuditInv sha order events s) :
    hashInputs (recordAll sha events) ⊆ s.hashedTexts := by
  rintro _ ⟨record, hrecord, rfl⟩
  have hrow : insertRow order record record.event ∈ s.rows := by
    rw [hinv.table]; exact List.mem_map_of_mem hrecord
  exact ⟨_, hrow, record.event, hinv.committed.mem_iff.mp (event_mem_of_mem_recordAll hrecord), rfl⟩

theorem AuditInv.forkFree (hinv : AuditInv sha order events s) : ForkFree sha order s := by
  have hall : selectAll s.rows = tableOf sha order events := by rw [hinv.table, selectAll_tableOf]
  have hl : Linked (computeEventHash sha) 0 GENESIS_HASH (recordAll sha events) := linked_recordAll events
  refine ⟨?_, ?_, ?_, ?_, ?_, ?_⟩ <;> rw [hall]
  · exact fun k row h => seq_tableOf h
  · intro row h
    obtain ⟨record, hrecord, rfl⟩ := get_tableOf h
    exact (get_of_linked hl hrecord).2.1
  · intro k row row' h h'
    obtain ⟨record, hrecord, rfl⟩ := get_tableOf h
    obtain ⟨record', hrecord', rfl⟩ := get_tableOf h'
    exact (get_of_linked hl hrecord').2.1.trans (endHash_take_succ GENESIS_HASH hrecord)
  · rw [columns_tableOf]
    exact hinv.committed.map _
  · intro predecessor _ j k row row' h h' hfollows hfollows'
    have hseq := hfollows.1.trans hfollows'.1.symm
    rw [seq_tableOf h, seq_tableOf h'] at hseq
    exact_mod_cast hseq
  · intro hsha hgenesis
    have hsub := hinv.hashInputs_subset
    have hnodup := nodup_prevHash_of_linked hl (hsha.mono hsub) (fun text htext => hgenesis text (hsub htext))
    rw [tableOf, List.map_map]
    exact hnodup

/-- However the statements of any number of appends interleave, and whichever of them end early, the
    committed table is one chain of the committed events. -/
theorem postgresAuditLog_forkFree (sha : Sha256) (order : MemberOrder) (ls : List AppendStep) :
    Always (appendStep sha order) (ForkFree sha order) {} ls :=
  fun _ _ _ hrun => (auditInv_of_exec hrun).forkFree

/-! ### One append after another -/

/-- The statements of one append that runs alone. -/
def appendRun (i : ℕ) (event : LoggedEvent) : List AppendStep :=
  [.start event, .lock i, .readTail i, .link i, .insert i, .commit i]

/-- The appends of a list of events, one after another. -/
def appendRuns : ℕ → List LoggedEvent → List AppendStep
  | _, [] => []
  | i, event :: events => appendRun i event ++ appendRuns (i + 1) events

/-- A database with one more transaction. -/
def AuditDb.withTxn (s : AuditDb) (event : LoggedEvent) (p : AppendPhase) (lock : Option ℕ) : AuditDb :=
  { s with lock := lock, txns := s.txns ++ [⟨event, p⟩] }

theorem AuditDb.get_withTxn (s : AuditDb) (event : LoggedEvent) (p : AppendPhase) (lock : Option ℕ) :
    (s.withTxn event p lock).txns[s.txns.length]? = some ⟨event, p⟩ :=
  List.getElem?_concat_length

theorem AuditDb.move_withTxn (s : AuditDb) (event : LoggedEvent) (p q : AppendPhase) (lock : Option ℕ) :
    (s.withTxn event p lock).move s.txns.length ⟨event, p⟩ q = s.withTxn event q lock := by
  simp [AuditDb.move, AuditDb.withTxn]

section alone
variable {event : LoggedEvent} {lock : Option ℕ} {tail : Option ChainedAuditRecord}

theorem appendStep_lock_withTxn : appendStep sha order (s.withTxn event .waiting none) (.lock s.txns.length) =
    some (s.withTxn event .locked (some s.txns.length)) := by
  rw [appendStep, AuditDb.get_withTxn, Option.bind_some, AuditDb.acquire, AuditDb.move_withTxn]
  rfl

theorem appendStep_readTail_withTxn (htail : readTail s.rows = .ok tail) :
    appendStep sha order (s.withTxn event .locked lock) (.readTail s.txns.length) =
      some (s.withTxn event (.read tail) lock) := by
  have htail' : readTail (s.withTxn event .locked lock).rows = .ok tail := htail
  rw [appendStep, AuditDb.get_withTxn, Option.bind_some, AuditDb.fetchTail]
  simp only [htail', AuditDb.move_withTxn]

theorem appendStep_link_withTxn :
    appendStep sha order (s.withTxn event (.read tail) lock) (.link s.txns.length) =
      some (s.withTxn event (.linked (link sha tail event.toAuditEvent)) lock) := by
  rw [appendStep, AuditDb.get_withTxn, Option.bind_some, AuditDb.computeLink]
  simp only [AuditDb.move_withTxn]

theorem appendStep_insert_withTxn {record : ChainedAuditRecord} (hstore : storable event.toAuditEvent = true)
    (hseq : s.rows.any (fun row => row.seq == record.seq) = false)
    (hpending : s.txns.any (fun u => u.phase.pending record.seq) = false) :
    appendStep sha order (s.withTxn event (.linked record) lock) (.insert s.txns.length) =
      some (s.withTxn event (.inserted (insertRow order record event.toAuditEvent)) lock) := by
  have hrows : (s.withTxn event (.linked record) lock).rows = s.rows := rfl
  have hothers : (s.withTxn event (.linked record) lock).txns.any
      (fun u => u.phase.pending record.seq) = false := by
    rw [AuditDb.withTxn, List.any_append, hpending]; rfl
  rw [appendStep, AuditDb.get_withTxn, Option.bind_some, AuditDb.insertLink]
  simp only [hstore, hrows, hseq, hothers, Bool.true_eq_false, Bool.false_eq_true, if_false,
    AuditDb.move_withTxn]

theorem appendStep_commit_withTxn {row : AuditRow} :
    appendStep sha order (s.withTxn event (.inserted row) (some s.txns.length)) (.commit s.txns.length) =
      some { s.withTxn event .committed none with rows := s.rows ++ [row] } := by
  rw [appendStep, AuditDb.get_withTxn, Option.bind_some, AuditDb.commit]
  simp [AuditDb.unlocked, AuditDb.withTxn, AuditDb.move]

/-- Nothing stands in the way of a new row while nobody holds the lock. -/
theorem AuditInv.fresh (hinv : AuditInv sha order events s) (hlock : s.lock = none)
    (event : AuditEvent) (htail : readTail s.rows = .ok tail) :
    s.rows.any (fun row => row.seq == (link sha tail event).seq) = false ∧
      s.txns.any (fun u => u.phase.pending (link sha tail event).seq) = false := by
  constructor
  · have hasc := @ascending_tableOf sha order (events ++ [event])
    rw [hinv.table] at htail ⊢
    rw [tableOf_append event htail, List.pairwise_append] at hasc
    rw [List.any_eq_false]
    intro row hrow heq
    exact (hasc.2.2 row hrow _ (List.mem_singleton_self _)).ne (beq_iff_eq.mp heq)
  · rw [List.any_eq_false]
    intro u hu hpending
    obtain ⟨j, hj⟩ := List.mem_iff_getElem?.mp hu
    have hholds : u.phase.holds = true := by
      cases hp : u.phase <;> rw [hp] at hpending <;> first | rfl | cases hpending
    rw [(hinv.holder j).mpr ⟨u, hj, hholds⟩] at hlock
    cases hlock

/-- An append that runs alone commits its event. -/
theorem AuditInv.exec_appendRun (hinv : AuditInv sha order events s) (hlock : s.lock = none)
    (hstore : storable event.toAuditEvent = true) :
    (∃ row, exec (appendStep sha order) s (appendRun s.txns.length event) =
      some { s.withTxn event .committed none with rows := s.rows ++ [row] }) ∧
    outputs (appendStep sha order) AuditDb.committedBy s (appendRun s.txns.length event) =
      [event.toAuditEvent] := by
  obtain ⟨tail, htail⟩ : ∃ tail, readTail s.rows = .ok tail :=
    ⟨_, by rw [hinv.table]; exact readTail_tableOf events⟩
  obtain ⟨hseq, hpending⟩ := hinv.fresh hlock event.toAuditEvent htail
  have hstart : appendStep sha order s (.start event) = some (s.withTxn event .waiting none) := by
    rw [← hlock]; rfl
  constructor
  · refine ⟨insertRow order (link sha tail event.toAuditEvent) event.toAuditEvent, ?_⟩
    simp only [appendRun, exec, hstart, appendStep_lock_withTxn, appendStep_readTail_withTxn htail,
      appendStep_link_withTxn, appendStep_insert_withTxn hstore hseq hpending, appendStep_commit_withTxn,
      Option.bind_some]
  · simp only [appendRun, outputs, hstart, appendStep_lock_withTxn, appendStep_readTail_withTxn htail,
      appendStep_link_withTxn, appendStep_insert_withTxn hstore hseq hpending, appendStep_commit_withTxn,
      Option.map_some, Option.getD_some, AuditDb.committedBy, AuditDb.get_withTxn, List.nil_append,
      List.append_nil, Option.toList_some]

/-- Appends that run one after another all commit, in their order. -/
theorem AuditInv.exec_appendRuns : ∀ (more : List LoggedEvent) (events : List AuditEvent) (s : AuditDb),
    AuditInv sha order events s → s.lock = none → (∀ e ∈ more, storable e.toAuditEvent = true) →
    (∃ s', exec (appendStep sha order) s (appendRuns s.txns.length more) = some s') ∧
    outputs (appendStep sha order) AuditDb.committedBy s (appendRuns s.txns.length more) =
      more.map (·.toAuditEvent)
  | [], _, s, _, _, _ => ⟨⟨s, rfl⟩, rfl⟩
  | event :: more, events, s, hinv, hlock, hstore => by
      obtain ⟨⟨row, hrun⟩, hout⟩ := hinv.exec_appendRun hlock (hstore event List.mem_cons_self)
      have hinv' := invariant_of_outputs (fun _ _ _ _ hinv hstep => appendStep_inv hinv hstep) hinv hrun
      have hlen : ({ s.withTxn event .committed none with rows := s.rows ++ [row] } : AuditDb).txns.length =
          s.txns.length + 1 := by
        simp [AuditDb.withTxn]
      obtain ⟨⟨s', hrest⟩, houts⟩ := AuditInv.exec_appendRuns more _ _ hinv' rfl
        (fun e he => hstore e (List.mem_cons_of_mem event he))
      rw [hlen] at hrest houts
      refine ⟨⟨s', exec_append.mpr ⟨_, hrun, hrest⟩⟩, ?_⟩
      rw [appendRuns, outputs_append _ hrun, hout, houts]
      rfl

/-- Events that the columns accept can be appended one after another. -/
theorem exec_appendRuns (more : List LoggedEvent) (hstore : ∀ e ∈ more, storable e.toAuditEvent = true) :
    (∃ s, exec (appendStep sha order) {} (appendRuns 0 more) = some s) ∧
      appended sha order (appendRuns 0 more) = more.map (·.toAuditEvent) :=
  AuditInv.empty.exec_appendRuns more [] {} rfl hstore

end alone

end Atlas
