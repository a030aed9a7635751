import Atlas.Persistence.AuditStore

/-! What `_load` reads back of what was appended. The hash of an event is taken over the canonical text of
    the event in memory, and `verify` takes it again over the event read back, so an untouched log verifies
    where the two texts are one. They are one exactly where every float in the detail survives its trip
    through the `jsonb` column (`readsBack_iff`); elsewhere the log reports tampering that did not happen. -/

namespace Atlas

open HashChain LabelledRun

variable {sha : Sha256} {order : MemberOrder}

/-- The floats in an event's detail, at any depth. -/
def AuditEvent.floats (event : AuditEvent) : List PyFloat := (Json.obj event.detail).floats

/-- After a run, `_load` yields the appended events with their canonical bytes, and `verify` is ok. -/
def ReadsBack (sha : Sha256) (order : MemberOrder) (ls : List AppendStep) (s : AuditDb) : Prop :=
  ∃ records, loadRecords s.rows = .ok records ∧
    records.map (fun record => canonicalEventBytes record.event) =
      (appended sha order ls).map canonicalEventBytes ∧
    (verifyChain sha records).ok = true

/-- Only the detail of an event makes a trip that can change it. -/
theorem modelDump_restoreEvent (event : AuditEvent) : (restoreEvent order event).modelDump =
    .obj [("event_id", .str event.eventId), ("timestamp", .str event.timestamp.isoformat),
      ("event_type", .str event.eventType.value), ("action_id", .str event.actionId),
      ("tool", (event.tool.map Json.str).getD .null), ("actor", .str event.actor),
      ("detail", (Json.obj event.detail).restore order)] := rfl

/-- Each float that does not survive costs the canonical bytes one sign character. -/
theorem signs_canonicalEventBytes (event : LoggedEvent) :
    signs (canonicalEventBytes (restoreEvent order event.toAuditEvent)) + lost event.floats =
      signs (canonicalEventBytes event.toAuditEvent) := by
  have hdetail : signs ((Json.obj event.detail).restore order).dumps + lost event.floats =
      signs (Json.obj event.detail).dumps := Json.signs_restore _ event.shortest
  rw [canonicalEventBytes, canonicalEventBytes, modelDump_restoreEvent, AuditEvent.modelDump,
    Json.signs_dumps_obj, Json.signs_dumps_obj]
  simp only [Json.dumpsFields, List.map_cons, List.sum_cons, signs_append, ← hdetail]
  omega

theorem canonicalEventBytes_restoreEvent {event : LoggedEvent} (hs : ∀ x ∈ event.floats, x.Survives) :
    canonicalEventBytes (restoreEvent order event.toAuditEvent) =
      canonicalEventBytes event.toAuditEvent := by
  have hdetail : ((Json.obj event.detail).restore order).dumps = (Json.obj event.detail).dumps :=
    (Json.dumps_restore_iff event.distinct event.shortest).mpr hs
  rw [canonicalEventBytes, canonicalEventBytes, modelDump_restoreEvent, AuditEvent.modelDump, Json.dumps,
    Json.dumps]
  simp only [Json.dumpsFields, hdetail]

theorem canonicalEventBytes_restoreEvent_iff (event : LoggedEvent) :
    canonicalEventBytes (restoreEvent order event.toAuditEvent) = canonicalEventBytes event.toAuditEvent ↔
      ∀ x ∈ event.floats, x.Survives := by
  refine ⟨fun heq => ?_, canonicalEventBytes_restoreEvent⟩
  have hsigns := @signs_canonicalEventBytes order event
  rw [heq] at hsigns
  exact lost_eq_zero.mp (by omega)

/-- The records `_load` reads after a run. -/
theorem loadRecords_of_exec {ls : List AppendStep} {s : AuditDb}
    (hrun : exec (appendStep sha order) {} ls = some s) : loadRecords s.rows =
      .ok ((recordAll sha (appended sha order ls)).map (Record.mapEvent (restoreEvent order))) := by
  rw [(auditInv_of_exec hrun).table, loadRecords_tableOf]

/-- An event that was appended is one as Python holds it. -/
theorem exists_loggedEvent {ls : List AppendStep} {s : AuditDb} {event : AuditEvent}
    (hrun : exec (appendStep sha order) {} ls = some s) (hevent : event ∈ appended sha order ls) :
    ∃ logged : LoggedEvent, logged.toAuditEvent = event := by
  have hmem := (auditInv_of_exec hrun).committed.mem_iff.mp hevent
  obtain ⟨t, -, ht⟩ := List.mem_map.mp hmem
  exact ⟨t.event, ht⟩

/-- A chain verifies with its events restored exactly when each of them still has its hash. -/
theorem verifyChain_restore_iff (events : List AuditEvent) :
    (verifyChain sha ((recordAll sha events).map (Record.mapEvent (restoreEvent order)))).ok = true ↔
      ∀ record ∈ recordAll sha events, computeEventHash sha record.prevHash (restoreEvent order record.event) =
        computeEventHash sha record.prevHash record.event := by
  rw [verifyChain_ok_iff, ← linked_mapEvent]
  have hl := @linked_recordAll sha events
  refine ⟨fun hrestored record hrecord => ?_, fun hsame => (linked_congr hsame).mpr hl⟩
  obtain ⟨k, hk⟩ := List.mem_iff_getElem?.mp hrecord
  exact (get_of_linked hrestored hk).2.2.symm.trans (get_of_linked hl hk).2.2

/-- The canonical bytes of the records read back, against those of the events appended. -/
theorem map_canonical_restore (events : List AuditEvent) :
    ((recordAll sha events).map (Record.mapEvent (restoreEvent order))).map
        (fun record => canonicalEventBytes record.event) =
      events.map (fun event => canonicalEventBytes (restoreEvent order event)) := by
  conv_rhs => rw [← @map_event_recordAll sha events, List.map_map]
  rw [List.map_map]
  rfl

/-- The appended events are read back with their canonical bytes, and the log verifies, exactly when none
    of them has a float in its detail that the column does not keep. -/
theorem readsBack_iff (sha : Sha256) (order : MemberOrder) (ls : List AppendStep) (s : AuditDb)
    (hrun : exec (appendStep sha order) {} ls = some s) :
    ReadsBack sha order ls s ↔ ∀ event ∈ appended sha order ls, ∀ x ∈ event.floats, x.Survives := by
  have hload := loadRecords_of_exec hrun
  constructor
  · rintro ⟨records, hrecords, hbytes, -⟩ event hevent
    rw [hload, Except.ok.injEq] at hrecords
    rw [← hrecords, map_canonical_restore] at hbytes
    obtain ⟨logged, rfl⟩ := exists_loggedEvent hrun hevent
    exact (canonicalEventBytes_restoreEvent_iff logged).mp (List.map_inj_left.mp hbytes _ hevent)
  · intro hs
    have hsame : ∀ event ∈ appended sha order ls,
        canonicalEventBytes (restoreEvent order event) = canonicalEventBytes event := by
      intro event hevent
      obtain ⟨logged, rfl⟩ := exists_loggedEvent hrun hevent
      exact canonicalEventBytes_restoreEvent (hs _ hevent)
    refine ⟨_, hload, ?_, (verifyChain_restore_iff _).mpr fun record hrecord => ?_⟩
    · rw [map_canonical_restore]
      exact List.map_congr_left hsame
    · rw [computeEventHash, computeEventHash, hsame _ (event_mem_of_mem_recordAll hrecord)]

/-- A float that the column does not keep is reported as tampering, where SHA-256 tells the texts of the
    events from those of the events read back. -/
theorem verify_ok_iff_of_exec {ls : List AppendStep} {s : AuditDb}
    (hrun : exec (appendStep sha order) {} ls = some s)
    (hsha : ∀ record ∈ recordAll sha (appended sha order ls),
      computeEventHash sha record.prevHash (restoreEvent order record.event) =
        computeEventHash sha record.prevHash record.event →
      canonicalEventBytes (restoreEvent order record.event) = canonicalEventBytes record.event) :
    (∃ records, loadRecords s.rows = .ok records ∧ (verifyChain sha records).ok = true) ↔
      ∀ event ∈ appended sha order ls, ∀ x ∈ event.floats, x.Survives := by
  have hload := loadRecords_of_exec hrun
  rw [hload]
  constructor
  · rintro ⟨records, hrecords, hok⟩ event hevent
    rw [Except.ok.injEq] at hrecords
    rw [← hrecords, verifyChain_restore_iff] at hok
    obtain ⟨record, hrecord, rfl⟩ : ∃ record ∈ recordAll sha (appended sha order ls), record.event = event := by
      rwa [← @map_event_recordAll sha (appended sha order ls), List.mem_map] at hevent
    obtain ⟨logged, hlogged⟩ := exists_loggedEvent hrun hevent
    have hsame := hsha record hrecord (hok record hrecord)
    rw [← hlogged] at hsame ⊢
    exact (canonicalEventBytes_restoreEvent_iff logged).mp hsame
  · intro hs
    refine ⟨_, rfl, (verifyChain_restore_iff _).mpr fun record hrecord => ?_⟩
    have hevent := event_mem_of_mem_recordAll hrecord
    obtain ⟨logged, hlogged⟩ := exists_loggedEvent hrun hevent
    rw [computeEventHash, computeEventHash, ← hlogged,
      @canonicalEventBytes_restoreEvent order logged (by rw [hlogged]; exact hs _ hevent)]

/-! ### Two logs of one event -/

/-- A column that lists the members of an object in reverse. -/
def reversedMembers : MemberOrder := ⟨List.reverse, List.reverse_perm⟩

/-- A nested detail with numbers of every form that the column keeps. -/
def moderateEvent : LoggedEvent where
  toAuditEvent := { sampleEvent "0" with
    detail := [("risk_tier", .str "low"), ("args", .obj [
      ("rate", .arr [.float ⟨true, 15, -1⟩, .float ⟨false, 1, -7⟩, .float ⟨false, 1, 15⟩]),
      ("count", .int 10000000000000000), ("note", .null), ("ok", .bool true)])] }
  distinct := by simp [Json.DistinctKeys, Json.DistinctKeysFields, Json.DistinctKeysItems]
  shortest := by decide

def moderateHash : String := "03fb155b7de2771abd0d1fd4f6877ac4b8f146c65fb5e51bbcbadd758bfc8772"

/-- SHA-256 on the text that a log of it hashes. -/
def moderateSha : Sha256 where
  hexdigest s :=
    if s = GENESIS_HASH ++ canonicalEventBytes moderateEvent.toAuditEvent then moderateHash else GENESIS_HASH
  length_hexdigest s := by split_ifs <;> decide

/-- An event with the float `1e16`, and SHA-256 on the two texts that its log hashes. -/
def hugeEvent : LoggedEvent where
  toAuditEvent := { sampleEvent "0" with detail := [("x", .float ⟨false, 1, 16⟩)] }
  distinct := by simp [Json.DistinctKeys, Json.DistinctKeysFields]
  shortest := by decide

def hugeHash : String := "49e4494c678e519909213cd0aaa9d088896acf706540f68df9c70c6ccf54c555"
def restoredHash : String := "237dc21df7ab86be31c248ffc7f5687f97c9f7021e205c01913468c17977b951"

def hugeSha : Sha256 where
  hexdigest s :=
    if s = GENESIS_HASH ++ canonicalEventBytes hugeEvent.toAuditEvent then hugeHash
    else restoredHash
  length_hexdigest s := by split_ifs <;> decide

example : canonicalEventBytes (restoreEvent reversedMembers hugeEvent.toAuditEvent) =
    "\x7b\"action_id\":\"act_0\",\"actor\":\"system\",\"detail\":\x7b\"x\":10000000000000000\x7d," ++
    "\"event_id\":\"evt_0\",\"event_type\":\"proposed\",\"timestamp\":\"2026-06-19T00:00:00Z\"," ++
    "\"tool\":null\x7d" := by
  decide +kernel

/-- A log of moderate numbers is read back. -/
theorem readsBack_moderate : ∃ s, exec (appendStep moderateSha reversedMembers) {}
    (appendRuns 0 [moderateEvent]) = some s ∧
      ReadsBack moderateSha reversedMembers (appendRuns 0 [moderateEvent]) s := by
  have hstore : ∀ e ∈ [moderateEvent], storable e.toAuditEvent = true := by
    intro e he
    obtain rfl := List.mem_singleton.mp he
    decide +kernel
  obtain ⟨⟨s, hrun⟩, happended⟩ := @exec_appendRuns moderateSha reversedMembers [moderateEvent] hstore
  refine ⟨s, hrun, (readsBack_iff moderateSha reversedMembers _ s hrun).mpr ?_⟩
  rw [happended]
  intro event hevent
  obtain rfl := List.mem_singleton.mp hevent
  decide +kernel

/-- A log of the event with `1e16` is not read back: the float returns as an `int`, and `verify` reports
    tampering with a log that nobody touched. -/
theorem not_readsBack_huge : ∃ s, exec (appendStep hugeSha reversedMembers) {}
    (appendRuns 0 [hugeEvent]) = some s ∧
      ¬ReadsBack hugeSha reversedMembers (appendRuns 0 [hugeEvent]) s ∧
      (loadRecords s.rows).map (verifyChain hugeSha) =
        .ok ⟨false, some 0, some "event_hash does not match event content"⟩ := by
  have hstore : ∀ e ∈ [hugeEvent], storable e.toAuditEvent = true := by
    intro e he
    obtain rfl := List.mem_singleton.mp he
    decide +kernel
  obtain ⟨⟨s, hrun⟩, happended⟩ := @exec_appendRuns hugeSha reversedMembers [hugeEvent] hstore
  have hload := loadRecords_of_exec hrun
  rw [happended] at hload
  have hverify : verifyChain hugeSha ((recordAll hugeSha [hugeEvent.toAuditEvent]).map
      (Record.mapEvent (restoreEvent reversedMembers))) =
      ⟨false, some 0, some "event_hash does not match event content"⟩ := by
    decide +kernel
  refine ⟨s, hrun, ?_, ?_⟩
  · rintro ⟨records, hrecords, -, hok⟩
    rw [hload, Except.ok.injEq] at hrecords
    rw [← hrecords] at hok
    exact Bool.false_ne_true ((congrArg ChainVerification.ok hverify).symm.trans hok)
  · rw [hload]
    exact congrArg Except.ok hverify

end Atlas
