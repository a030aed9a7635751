import Atlas.Lib.SqlBool
import Atlas.Execution.Guarded
import Atlas.Persistence.AuditStore

/-! Whether an action has run, asked of the database and of the events read from it. In Python a marker
    counts if it is absent or the literal `True`, in SQL if it is absent or null or its text reads as a
    true boolean, and other texts raise. So the answers agree in every order of the rows exactly where
    the id can be bound, each marker of the action's executions reads as a boolean and one of them counts
    in Python if one does in SQL (`answersAgree_iff`): the recorders write no other marker than `True`,
    but the column takes any. -/

namespace Atlas

open HashChain LabelledRun SqlBool

/-! ### The query -/

/-- A number as `numeric_out` prints it. -/
def Numeric.out (n : Numeric) : String :=
  if n.scale = 0 then toString n.coefficient
  else (if n.coefficient < 0 then "-" else "") ++ toString (n.coefficient.natAbs / 10 ^ n.scale) ++ "." ++
    padNat n.scale (n.coefficient.natAbs % 10 ^ n.scale)

mutual
/-- A value as `jsonb_out` prints it. -/
def Jsonb.out : Jsonb → String
  | .null => "null"
  | .bool b => if b then "true" else "false"
  | .num n => n.out
  | .str s => Json.dumpStr s
  | .arr items => "[" ++ ", ".intercalate (Jsonb.outItems items) ++ "]"
  | .obj members => "\x7b" ++ ", ".intercalate (Jsonb.outMembers members) ++ "\x7d"

def Jsonb.outItems : List Jsonb → List String
  | [] => []
  | v :: vs => v.out :: Jsonb.outItems vs

def Jsonb.outMembers : List (String × Jsonb) → List String
  | [] => []
  | (k, v) :: ms => (Json.dumpStr k ++ ": " ++ v.out) :: Jsonb.outMembers ms
end

/-- A value as text: nothing of `null`, a string without its quotes. -/
def Jsonb.text? : Jsonb → Option String
  | .null => none
  | .str s => some s
  | v => some v.out

/-- `detail->>key`. -/
def Jsonb.textOf (key : String) : Jsonb → Option String
  | .obj members => (members.lookup key).bind Jsonb.text?
  | _ => none

/-- `COALESCE((text)::boolean, true)`. -/
def coalesceTrue : Option String → Except PyError Bool
  | none => .ok true
  | some text =>
    match boolin text with
    | some b => .ok b
    | none => .error ⟨"InvalidTextRepresentation", "invalid input syntax for type boolean: \"" ++ text ++ "\""⟩

/-- The WHERE clause of `_HAS_EXECUTED`; the cast is made where the two comparisons hold. -/
def executedRow (actionId : String) (row : AuditRow) : Except PyError Bool :=
  if row.eventType = AuditEventType.executed.value ∧ row.actionId = actionId then
    coalesceTrue (row.detail.textOf "ok")
  else .ok false

/-- `PostgresAuditLog.has_executed`, the rows being read in the order of `scan`; an id with a NUL is not
    bound. -/
def postgresHasExecuted (scan : List AuditRow) (actionId : String) : Except PyError Bool :=
  if bindable [actionId] then existsScan (executedRow actionId) scan else .error dataError

/-- `PostgresAuditLog.events`. -/
def loadEvents (rows : List AuditRow) : Except PyError (List AuditEvent) :=
  (loadRecords rows).map (·.map Record.event)

/-- The event `_replay_result` looks for. -/
def replayEvent? (events : List AuditEvent) (actionId : String) : Option AuditEvent :=
  events.reverse.find? (fun e => countsAsExecuted e && e.actionId == actionId)

theorem isSome_replayEvent? (events : List AuditEvent) (stamps : ℕ → Stamp) (actionId : String) :
    (replayEvent? events actionId).isSome = AuditLog.hasExecuted ⟨events, stamps⟩ actionId := by
  rw [Bool.eq_iff_iff, replayEvent?, List.find?_isSome, AuditLog.hasExecuted]
  simp only [List.any_eq_true, List.mem_reverse]

/-- The database, the base class over the events read from it and the search for the event to replay give
    one answer without raising, in whatever order the rows are read. -/
def AnswersAgree (rows : List AuditRow) (actionId : String) : Prop :=
  ∃ events, loadEvents rows = .ok events ∧ ∀ stamps scan, scan.Perm rows →
    postgresHasExecuted scan actionId = .ok (AuditLog.hasExecuted ⟨events, stamps⟩ actionId) ∧
    (replayEvent? events actionId).isSome = AuditLog.hasExecuted ⟨events, stamps⟩ actionId

/-! ### Markers -/

/-- What the query makes of a marker: nothing where it raises. -/
def Json.okCast : Json → Option Bool
  | .null => some true
  | .bool b => some b
  | .int n => if n = 1 then some true else if n = 0 then some false else none
  | .str s => boolin s
  | .float _ | .arr _ | .obj _ => none

/-- The marker of an event, as the query takes it. -/
def AuditEvent.okCast (event : AuditEvent) : Option Bool :=
  match event.detail.lookup "ok" with
  | none => some true
  | some marker => marker.okCast

/-- The events of an action's executions. -/
def executions (events : List AuditEvent) (actionId : String) : List AuditEvent :=
  events.filter (fun e => e.eventType = .executed && e.actionId == actionId)

/-- Every marker of the action's executions reads as a boolean, and if one reads as true, be it that it is
    null or a text, there is also one that is `True` itself or absent. -/
structure MarkersAgree (events : List AuditEvent) (actionId : String) : Prop where
  readable : ∀ e ∈ executions events actionId, e.okCast ≠ none
  counted : (∃ e ∈ executions events actionId, e.okCast = some true) →
    ∃ e ∈ executions events actionId, countsAsExecuted e = true

/-- The text of an integer reads as a boolean if it is one of the two digits. -/
theorem boolin_toString (n : ℤ) : boolin (toString n) = (Json.int n).okCast := by
  cases n with
  | ofNat n =>
    have hdigits : (toString (Int.ofNat n)).toList.all Char.isDigit = true := by
      rw [show toString (Int.ofNat n) = n.repr from rfl, Nat.toList_repr, List.all_eq_true]
      exact fun c hc => Nat.isDigit_of_mem_toDigits (by decide) (by decide) hc
    have hone : toString (Int.ofNat n) = "1" ↔ Int.ofNat n = 1 := Int.repr_inj (b := 1)
    have hzero : toString (Int.ofNat n) = "0" ↔ Int.ofNat n = 0 := Int.repr_inj (b := 0)
    rw [boolin_of_digits hdigits, Json.okCast]
    exact if_congr hone rfl (if_congr hzero rfl rfl)
  | negSucc n =>
    have hsign : '-' ∈ (toString (Int.negSucc n)).toList := by
      rw [show toString (Int.negSucc n) = "-" ++ (n + 1).repr from rfl, String.toList_append]
      exact List.mem_append_left _ (by decide)
    rw [boolin_eq_none hsign (by decide), Json.okCast, if_neg (by simp), if_neg (by simp)]

/-- A float never prints as one of the two digits: it has a point, or it is huge. -/
theorem boolin_out_ofFloat (x : PyFloat) : boolin (Numeric.ofFloat x).out = none := by
  by_cases hscale : (Numeric.ofFloat x).scale = 0
  · have h0 : x.digits ≠ 0 := by
      intro h0
      have hone : (Numeric.ofFloat x).scale = 1 := by
        change ((x.fractionDigits : ℤ) - x.printedExponent).toNat = 1
        have hplain : x.Positional := Or.inl h0
        rw [PyFloat.fractionDigits, PyFloat.printedExponent, if_pos h0, if_pos hplain]
        rfl
      omega
    have hexp : 0 ≤ x.exponent ∧ 16 < x.point := by
      have h := hscale
      rw [Numeric.scale_ofFloat h0] at h
      split at h
      next => omega
      next =>
        split at h
        next => omega
        next => omega
    have hcoefficient : (Numeric.ofFloat x).coefficient =
        (if x.negative then -1 else 1) * (x.digits * 10 ^ x.exponent.toNat : ℕ) := by
      change _ * ((x.digits * 10 ^ (x.exponent + ((Numeric.ofFloat x).scale : ℤ)).toNat : ℕ) : ℤ) = _
      rw [hscale, Nat.cast_zero, add_zero]
    have hbig : 10 < x.digits * 10 ^ x.exponent.toNat := by
      have hlo := (PyFloat.digits_bounds h0).1
      have hpoint : 2 ≤ (toString x.digits).toList.length - 1 + x.exponent.toNat := by
        have := hexp.2
        rw [PyFloat.point] at this
        omega
      calc 10 < 10 ^ 2 := by decide
        _ ≤ 10 ^ ((toString x.digits).toList.length - 1 + x.exponent.toNat) :=
          Nat.pow_le_pow_right (by decide) hpoint
        _ = 10 ^ ((toString x.digits).toList.length - 1) * 10 ^ x.exponent.toNat := pow_add ..
        _ ≤ x.digits * 10 ^ x.exponent.toNat := Nat.mul_le_mul_right _ hlo
    rw [Numeric.out, if_pos hscale, boolin_toString, hcoefficient, Json.okCast]
    generalize x.digits * 10 ^ x.exponent.toNat = m at hbig
    cases x.negative with
    | true => rw [if_pos rfl, if_neg (by omega), if_neg (by omega)]
    | false => rw [if_neg Bool.false_ne_true, if_neg (by omega), if_neg (by omega)]
  · refine boolin_eq_none (c := '.') ?_ (by decide)
    rw [Numeric.out, if_neg hscale]
    simp

/-- The text of a stored marker reads as the marker does. -/
theorem coalesceTrue_store (order : MemberOrder) (marker : Json) :
    (coalesceTrue (Jsonb.store order marker).text?).toOption = marker.okCast := by
  have hcoalesce : ∀ text, (coalesceTrue (some text)).toOption = boolin text := by
    intro text
    rw [coalesceTrue]
    cases boolin text <;> rfl
  cases marker with
  | null => rfl
  | bool b =>
    cases b with
    | true => exact (hcoalesce "true").trans (by decide)
    | false => exact (hcoalesce "false").trans (by decide)
  | int n => exact (hcoalesce _).trans (boolin_toString n)
  | float x => exact (hcoalesce _).trans (boolin_out_ofFloat x)
  | str s => exact hcoalesce s
  | arr items =>
    refine (hcoalesce _).trans (boolin_eq_none (c := '[') ?_ (by decide))
    simp [Jsonb.out, Jsonb.store]
  | obj fields =>
    refine (hcoalesce _).trans (boolin_eq_none (c := '\x7b') ?_ (by decide))
    simp [Jsonb.out, Jsonb.store]

/-! ### The trip of an event -/

theorem Jsonb.storeFields_eq_map (order : MemberOrder) (fields : List (String × Json)) :
    Jsonb.storeFields order fields = fields.map (fun f => (f.1, Jsonb.store order f.2)) := by
  induction fields with
  | nil => rfl
  | cons f fields ih => rw [Jsonb.storeFields, ih, List.map_cons]

/-- A member is found in the column as it was stored, wherever the column puts it. -/
theorem lookup_arrange (order : MemberOrder) {fields : List (String × Json)}
    (h : (fields.map (·.1)).Nodup) (key : String) :
    (order.arrange (Jsonb.storeFields order fields)).lookup key =
      (fields.lookup key).map (Jsonb.store order) := by
  have hkeys : (Jsonb.storeFields order fields).map (·.1) = fields.map (·.1) := by
    rw [Jsonb.storeFields_eq_map, List.map_map]
    rfl
  rw [← Dict.lookup_perm (order.perm _).symm (by rwa [hkeys]), Jsonb.storeFields_eq_map,
    Dict.lookup_map_values]

/-- The marker in an event's column reads as the event's. -/
theorem coalesceTrue_columnsOf (order : MemberOrder) (event : LoggedEvent) :
    (coalesceTrue ((columnsOf order event.toAuditEvent).detail.textOf "ok")).toOption = event.okCast := by
  rw [columnsOf, Jsonb.store, Jsonb.textOf, lookup_arrange order event.distinct.1, AuditEvent.okCast]
  cases event.detail.lookup "ok" with
  | none => rfl
  | some marker => exact coalesceTrue_store order marker

theorem isTrue_restore (order : MemberOrder) (v : Json) : (v.restore order).isTrue = v.isTrue := by
  have hread : ∀ n : Numeric, n.read.isTrue = false := by
    intro n
    rw [Numeric.read]
    split <;> rfl
  cases v with
  | int n => exact hread (Numeric.ofInt n)
  | float x => exact hread (Numeric.ofFloat x)
  | null | bool | str | arr | obj => rfl

/-- Reading an event back changes nothing about whether it counts. -/
theorem countsAsExecuted_restoreEvent (order : MemberOrder) (event : LoggedEvent) :
    countsAsExecuted (restoreEvent order event.toAuditEvent) = countsAsExecuted event.toAuditEvent := by
  have hdetail : (restoreEvent order event.toAuditEvent).detail.lookup "ok" =
      (event.detail.lookup "ok").map (Json.restore order) := by
    change (Jsonb.loadFields (order.arrange (Jsonb.storeFields order event.detail))).lookup "ok" = _
    rw [Jsonb.loadFields_eq_map, Dict.lookup_map_values, lookup_arrange order event.distinct.1,
      Option.map_map]
    rfl
  have htype : (restoreEvent order event.toAuditEvent).eventType = event.eventType := rfl
  rw [countsAsExecuted, countsAsExecuted, hdetail, htype]
  cases event.detail.lookup "ok" with
  | none => rfl
  | some marker => simp only [Option.map_some, isTrue_restore]

/-! ### The answers -/

variable {sha : Sha256} {order : MemberOrder}

/-- What counts in Python counts in SQL. -/
theorem okCast_of_counts {event : AuditEvent} (h : countsAsExecuted event = true) :
    event.eventType = .executed ∧ event.okCast = some true := by
  rw [countsAsExecuted] at h
  split at h
  next htype =>
    refine ⟨htype, ?_⟩
    rw [AuditEvent.okCast]
    cases hmarker : event.detail.lookup "ok" with
    | none => rfl
    | some marker =>
      simp only [hmarker] at h
      cases marker with
      | bool b =>
        cases b with
        | true => rfl
        | false => cases h
      | null | int | float | str | arr | obj => cases h
  next => cases h

theorem mem_executions {events : List AuditEvent} {actionId : String} {e : AuditEvent} :
    e ∈ executions events actionId ↔ e ∈ events ∧ e.eventType = .executed ∧ e.actionId = actionId := by
  simp [executions]

theorem hasExecuted_iff {events : List AuditEvent} {stamps : ℕ → Stamp} {actionId : String} :
    AuditLog.hasExecuted ⟨events, stamps⟩ actionId = true ↔
      ∃ e ∈ executions events actionId, countsAsExecuted e = true := by
  simp only [AuditLog.hasExecuted, List.any_eq_true, Bool.and_eq_true, beq_iff_eq, mem_executions]
  constructor
  · rintro ⟨e, he, hcounts, hid⟩
    exact ⟨e, ⟨he, (okCast_of_counts hcounts).1, hid⟩, hcounts⟩
  · rintro ⟨e, ⟨he, -, hid⟩, hcounts⟩
    exact ⟨e, he, hcounts, hid⟩

/-- What the query makes of an event. -/
def queryMarker (actionId : String) (event : AuditEvent) : Option Bool :=
  if event.eventType = .executed ∧ event.actionId = actionId then event.okCast else some false

theorem executedRow_insertRow (record : ChainedAuditRecord) (event : LoggedEvent) (actionId : String) :
    (executedRow actionId (insertRow order record event.toAuditEvent)).toOption =
      queryMarker actionId event.toAuditEvent := by
  have htype : event.eventType.value = AuditEventType.executed.value ↔ event.eventType = .executed := by
    cases event.eventType <;> decide
  rw [executedRow, queryMarker]
  by_cases h : event.eventType = .executed ∧ event.actionId = actionId
  · rw [if_pos h, if_pos ⟨htype.mpr h.1, h.2⟩]
    exact coalesceTrue_columnsOf order event
  · rw [if_neg h, if_neg fun h' => h ⟨htype.mp h'.1, h'.2⟩]
    rfl

section table
variable {events : List AuditEvent} {actionId : String}

/-- Each event is one as Python holds it. -/
def Logged (events : List AuditEvent) : Prop :=
  ∀ e ∈ events, ∃ logged : LoggedEvent, logged.toAuditEvent = e

/-- The rows of a chain are under the query what its events are. -/
theorem map_executedRow_tableOf (hlogged : Logged events) :
    (tableOf sha order events).map (fun row => (executedRow actionId row).toOption) =
      events.map (queryMarker actionId) := by
  conv_rhs => rw [← @map_event_recordAll sha events]
  rw [tableOf, List.map_map, List.map_map]
  refine List.map_congr_left fun record hrecord => ?_
  obtain ⟨logged, hevent⟩ := hlogged _ (event_mem_of_mem_recordAll hrecord)
  rw [Function.comp_apply, Function.comp_apply, ← hevent, executedRow_insertRow]

theorem exists_row_iff (hlogged : Logged events) (marker : Option Bool) :
    (∃ row ∈ tableOf sha order events, (executedRow actionId row).toOption = marker) ↔
      ∃ e ∈ events, queryMarker actionId e = marker := by
  rw [← List.mem_map, ← List.mem_map, map_executedRow_tableOf hlogged]

theorem hasExecuted_restore (hlogged : Logged events) (stamps : ℕ → Stamp) :
    AuditLog.hasExecuted ⟨events.map (restoreEvent order), stamps⟩ actionId = true ↔
      ∃ e ∈ executions events actionId, countsAsExecuted e = true := by
  rw [← @hasExecuted_iff _ stamps]
  simp only [AuditLog.hasExecuted, List.any_eq_true, List.mem_map]
  constructor
  · rintro ⟨_, ⟨e, he, rfl⟩, hcounts⟩
    obtain ⟨logged, rfl⟩ := hlogged e he
    rw [countsAsExecuted_restoreEvent] at hcounts
    exact ⟨_, he, hcounts⟩
  · rintro ⟨e, he, hcounts⟩
    obtain ⟨logged, rfl⟩ := hlogged e he
    refine ⟨_, ⟨_, he, rfl⟩, ?_⟩
    rw [countsAsExecuted_restoreEvent]
    exact hcounts

end table

theorem queryMarker_eq_true {event : AuditEvent} {actionId : String} :
    queryMarker actionId event = some true ↔
      (event.eventType = .executed ∧ event.actionId = actionId) ∧ event.okCast = some true := by
  rw [queryMarker]
  split
  next h => simp [h]
  next h => simp [h]

/-- A query that raises on no row says whether a row is taken as executed. -/
theorem postgresHasExecuted_of_readable {rows : List AuditRow} {actionId : String}
    (hbind : bindable [actionId] = true) (h : ∀ row ∈ rows, (executedRow actionId row).toOption ≠ none) :
    postgresHasExecuted rows actionId =
      .ok (rows.any fun row => (executedRow actionId row).toOption == some true) := by
  rw [postgresHasExecuted, if_pos hbind]
  refine existsScan_of_ok fun row hrow => ?_
  have hne := h row hrow
  cases hq : executedRow actionId row with
  | error e => exact absurd (by rw [hq]; rfl) hne
  | ok b => cases b <;> rfl

/-- The table of a chain answers in one way exactly when the id can be bound and the markers of the action's
    executions agree. -/
theorem answersAgree_tableOf_iff {events : List AuditEvent} (hlogged : Logged events) (actionId : String) :
    AnswersAgree (tableOf sha order events) actionId ↔
      bindable [actionId] = true ∧ MarkersAgree events actionId := by
  have hload : loadEvents (tableOf sha order events) = .ok (events.map (restoreEvent order)) := by
    rw [loadEvents, loadRecords_tableOf]
    conv_rhs => rw [← @map_event_recordAll sha events]
    simp only [Except.map, List.map_map]
    rfl
  constructor
  · rintro ⟨loaded, hloaded, hagree⟩
    cases hloaded.symm.trans hload
    have hbind : bindable [actionId] = true := by
      obtain ⟨hquery, -⟩ := hagree freshLog.stamps _ (List.Perm.refl _)
      by_contra hnul
      rw [postgresHasExecuted, if_neg hnul] at hquery
      cases hquery
    have hreadable : ∀ row ∈ tableOf sha order events, (executedRow actionId row).toOption ≠ none := by
      intro row hrow hnone
      -- an order in which the row that raises comes first
      obtain ⟨l, r, hsplit⟩ := List.append_of_mem hrow
      have hscan : (row :: (l ++ r)).Perm (tableOf sha order events) := by
        rw [hsplit]
        exact List.perm_middle.symm
      obtain ⟨hquery, -⟩ := hagree freshLog.stamps _ hscan
      cases hq : executedRow actionId row with
      | error e =>
        rw [postgresHasExecuted, if_pos hbind, existsScan_cons_error hq] at hquery
        cases hquery
      | ok b =>
        rw [hq] at hnone
        cases hnone
    refine ⟨hbind, fun e he hnone => ?_, ?_⟩
    · obtain ⟨hmem, hexecuted⟩ := mem_executions.mp he
      obtain ⟨row, hrow, hmarker⟩ := (exists_row_iff hlogged none).mpr
        ⟨e, hmem, by rw [queryMarker, if_pos hexecuted, hnone]⟩
      exact hreadable row hrow hmarker
    · rintro ⟨e, he, htrue⟩
      obtain ⟨hmem, hexecuted⟩ := mem_executions.mp he
      obtain ⟨row, hrow, hmarker⟩ := (exists_row_iff hlogged (some true)).mpr
        ⟨e, hmem, queryMarker_eq_true.mpr ⟨hexecuted, htrue⟩⟩
      obtain ⟨hquery, -⟩ := hagree freshLog.stamps _ (List.Perm.refl _)
      rw [postgresHasExecuted_of_readable hbind hreadable, Except.ok.injEq] at hquery
      rw [← @hasExecuted_restore order events actionId hlogged freshLog.stamps, ← hquery]
      exact List.any_eq_true.mpr ⟨row, hrow, by rw [hmarker]; rfl⟩
  · rintro ⟨hbind, hmarkers⟩
    refine ⟨_, hload, fun stamps scan hscan => ⟨?_, isSome_replayEvent? _ stamps actionId⟩⟩
    rw [postgresHasExecuted_of_readable hbind, Except.ok.injEq, Bool.eq_iff_iff, hasExecuted_restore hlogged]
    · have hany : (scan.any fun row => (executedRow actionId row).toOption == some true) = true ↔
          ∃ e ∈ executions events actionId, e.okCast = some true := by
        simp only [List.any_eq_true, hscan.mem_iff, beq_iff_eq, exists_row_iff hlogged, mem_executions,
          queryMarker_eq_true, and_assoc]
      rw [hany]
      refine ⟨hmarkers.counted, ?_⟩
      rintro ⟨e, he, hcounts⟩
      exact ⟨e, he, (okCast_of_counts hcounts).2⟩
    · intro row hrow hnone
      obtain ⟨e, he, hmarker⟩ := (exists_row_iff hlogged none).mp ⟨row, hscan.mem_iff.mp hrow, hnone⟩
      rw [queryMarker] at hmarker
      split at hmarker
      next hexecuted => exact hmarkers.readable e (mem_executions.mpr ⟨he, hexecuted⟩) hmarker
      next => cases hmarker

/-- After any run of appends, every way of asking whether an action has run gives one answer and none of
    them raises, in every order of the rows, exactly when its id can be bound and the markers of its
    executions agree. -/
theorem answersAgree_iff (sha : Sha256) (order : MemberOrder) (ls : List AppendStep) (s : AuditDb)
    (hrun : exec (appendStep sha order) {} ls = some s) (actionId : String) :
    AnswersAgree s.rows actionId ↔
      bindable [actionId] = true ∧ MarkersAgree (appended sha order ls) actionId := by
  have hinv := auditInv_of_exec hrun
  rw [hinv.table]
  refine answersAgree_tableOf_iff (fun e he => ?_) actionId
  obtain ⟨t, -, ht⟩ := List.mem_map.mp (hinv.committed.mem_iff.mp he)
  exact ⟨t.event, ht⟩

/-! ### An execution with a null marker -/

/-- An execution recorded with a marker of its own. -/
def markedEvent (marker : Json) (hkeys : marker.DistinctKeys) (hfloats : marker.floats = []) :
    LoggedEvent where
  toAuditEvent := { sampleEvent "0" with eventType := .executed, detail := [("ok", marker)] }
  distinct := by simpa [Json.DistinctKeys, Json.DistinctKeysFields] using hkeys
  shortest := by simp [Json.floats, Json.floatsFields, hfloats]

/-- A log whose execution is marked with the literal `True`. -/
theorem answersAgree_marked : ∃ s, exec (appendStep sampleSha ⟨id, fun _ => .refl _⟩) {}
    (appendRuns 0 [markedEvent (.bool true) trivial rfl]) = some s ∧ AnswersAgree s.rows "act_0" := by
  obtain ⟨⟨s, hrun⟩, happended⟩ := @exec_appendRuns sampleSha ⟨id, fun _ => .refl _⟩
    [markedEvent (.bool true) trivial rfl] (by decide +kernel)
  refine ⟨s, hrun, (answersAgree_iff sampleSha _ _ s hrun "act_0").mpr ?_⟩
  rw [happended]
  exact ⟨by decide, by decide, fun _ => ⟨_, List.mem_cons_self, rfl⟩⟩

/-- A null marker counts in SQL and not in Python. -/
theorem not_answersAgree_null : ∃ s, exec (appendStep sampleSha ⟨id, fun _ => .refl _⟩) {}
    (appendRuns 0 [markedEvent .null trivial rfl]) = some s ∧ ¬AnswersAgree s.rows "act_0" ∧
      postgresHasExecuted s.rows "act_0" = .ok true ∧
      (loadEvents s.rows).map (fun events => AuditLog.hasExecuted ⟨events, freshLog.stamps⟩ "act_0") =
        .ok false := by
  obtain ⟨⟨s, hrun⟩, happended⟩ := @exec_appendRuns sampleSha ⟨id, fun _ => .refl _⟩
    [markedEvent .null trivial rfl] (by decide +kernel)
  have htable := (auditInv_of_exec hrun).table
  rw [happended] at htable
  have hlogged : Logged ([markedEvent .null trivial rfl].map (·.toAuditEvent)) := by
    intro e he
    obtain ⟨logged, -, rfl⟩ := List.mem_map.mp he
    exact ⟨logged, rfl⟩
  refine ⟨s, hrun, ?_, ?_, ?_⟩ <;> rw [htable]
  · rw [answersAgree_tableOf_iff hlogged]
    rintro ⟨-, hmarkers⟩
    exact absurd (hmarkers.counted ⟨_, List.mem_cons_self, rfl⟩) (by decide)
  · decide +kernel
  · decide +kernel

end Atlas
