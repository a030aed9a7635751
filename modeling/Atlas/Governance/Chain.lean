import Atlas.Lib.HashChain
import Atlas.Governance.Audit

/-! The hash chain under the audit log: `sha256(prev_hash || canonical(event))`, the link a backend
    appends and the verifier. The verifier accepts exactly the linked chains (`verifyChain_ok_iff`),
    so what it can and cannot notice is what the chain library says about tampering. -/

namespace Atlas

open HashChain

/-- SHA-256 as the log uses it: UTF-8 text to a hex digest, 64 characters wide. -/
structure Sha256 where
  hexdigest : String → String
  length_hexdigest : ∀ s, (hexdigest s).length = 64

/-- Genesis link for the first event in a chain. -/
def GENESIS_HASH : String := String.ofList (List.replicate 64 '0')

/-- `event.model_dump(mode="json")`. -/
def AuditEvent.modelDump (event : AuditEvent) : Json :=
  .obj [("event_id", .str event.eventId), ("timestamp", .str event.timestamp.isoformat),
    ("event_type", .str event.eventType.value), ("action_id", .str event.actionId),
    ("tool", (event.tool.map Json.str).getD .null), ("actor", .str event.actor),
    ("detail", .obj event.detail)]

/-- The deterministic text of an event, whose UTF-8 form is hashed. -/
def canonicalEventBytes (event : AuditEvent) : String := event.modelDump.dumps

/-- Hash an event into the chain. -/
def computeEventHash (sha : Sha256) (prevHash : String) (event : AuditEvent) : String :=
  sha.hexdigest (prevHash ++ canonicalEventBytes event)

abbrev ChainedAuditRecord := Record AuditEvent String

/-- Result of verifying a chain. -/
structure ChainVerification where
  ok : Bool
  brokenAt : Option ℤ := none
  reason : Option String := none
  deriving DecidableEq, Repr

/-- The loop of `verify_chain` from a position and an expected previous hash. -/
def verifyFrom (sha : Sha256) : ℕ → String → List ChainedAuditRecord → ChainVerification
  | _, _, [] => { ok := true }
  | index, expectedPrev, record :: records =>
    if record.seq ≠ index then
      { ok := false, brokenAt := some record.seq
        reason := some ("non-contiguous seq at index " ++ toString index) }
    else if record.prevHash ≠ expectedPrev then
      { ok := false, brokenAt := some record.seq
        reason := some "prev_hash does not match previous link" }
    else if computeEventHash sha record.prevHash record.event ≠ record.eventHash then
      { ok := false, brokenAt := some record.seq
        reason := some "event_hash does not match event content" }
    else verifyFrom sha (index + 1) record.eventHash records

/-- Verify continuity, linkage and recomputed hashes across the whole chain. -/
def verifyChain (sha : Sha256) (records : List ChainedAuditRecord) : ChainVerification :=
  verifyFrom sha 0 GENESIS_HASH records

/-- `AuditLog.link`: the next record from the current tail. -/
def link (sha : Sha256) (tail : Option ChainedAuditRecord) (event : AuditEvent) : ChainedAuditRecord :=
  next (computeEventHash sha) GENESIS_HASH tail event

/-- `_append_event` of the in-memory log: link the event onto the tail and keep the record. -/
def appendEvent (sha : Sha256) (records : List ChainedAuditRecord) (event : AuditEvent) :
    List ChainedAuditRecord :=
  records ++ [link sha records.getLast? event]

/-- The records of a log after a sequence of appends. -/
def recordAll (sha : Sha256) (events : List AuditEvent) : List ChainedAuditRecord :=
  events.foldl (appendEvent sha) []

variable (sha : Sha256)

theorem verifyFrom_ok_iff : ∀ (records : List ChainedAuditRecord) (index : ℕ) (expectedPrev : String),
    (verifyFrom sha index expectedPrev records).ok = true ↔
      Linked (computeEventHash sha) index expectedPrev records
  | [], _, _ => by simp [verifyFrom, Linked]
  | record :: records, index, expectedPrev => by
      have ih := verifyFrom_ok_iff records (index + 1) record.eventHash
      rw [Nat.cast_add, Nat.cast_one] at ih
      rw [verifyFrom, Linked, ← ih]
      by_cases hseq : record.seq = index
      · rw [if_neg (not_not.mpr hseq)]
        by_cases hprev : record.prevHash = expectedPrev
        · rw [if_neg (not_not.mpr hprev)]
          by_cases hhash : computeEventHash sha record.prevHash record.event = record.eventHash
          · rw [if_neg (not_not.mpr hhash)]
            exact ⟨fun h => ⟨hseq, hprev, hhash.symm, h⟩, fun h => h.2.2.2⟩
          · rw [if_pos hhash]
            exact ⟨fun h => Bool.noConfusion h, fun h => absurd h.2.2.1.symm hhash⟩
        · rw [if_pos hprev]
          exact ⟨fun h => Bool.noConfusion h, fun h => absurd h.2.1 hprev⟩
      · rw [if_pos hseq]
        exact ⟨fun h => Bool.noConfusion h, fun h => absurd h.1 hseq⟩

/-- The verifier accepts exactly the linked chains. -/
theorem verifyChain_ok_iff (records : List ChainedAuditRecord) :
    (verifyChain sha records).ok = true ↔ Linked (computeEventHash sha) 0 GENESIS_HASH records :=
  verifyFrom_ok_iff sha records 0 GENESIS_HASH

/-- An untouched log verifies. -/
theorem verifyChain_recordAll (events : List AuditEvent) :
    (verifyChain sha (recordAll sha events)).ok = true :=
  (verifyChain_ok_iff sha _).mpr (linked_build GENESIS_HASH events)

/-! ### What tampering the verifier notices -/

variable {sha}

theorem length_prevHash_of_linked : ∀ {rs : List ChainedAuditRecord} {n : ℤ} {h : String},
    Linked (computeEventHash sha) n h rs → h.length = 64 → ∀ r ∈ rs, r.prevHash.length = 64
  | x :: xs, n, h, ⟨_, hp, hh, hl⟩, hlen, r, hr => by
      rcases List.mem_cons.mp hr with rfl | hr
      · rw [hp, hlen]
      · refine length_prevHash_of_linked hl ?_ r hr
        rw [hh]; exact sha.length_hexdigest _

/-- The texts hashed for a list of records. -/
def hashInputs (records : List ChainedAuditRecord) : Set String :=
  {s | ∃ r ∈ records, s = r.prevHash ++ canonicalEventBytes r.event}

/-- With no collisions under the digest or the canonical form, records of linked chains have none: the
    width of a hash tells where the previous hash ends and the event begins. -/
theorem collisionFree_of_injOn {rs : List ChainedAuditRecord}
    (hsha : Set.InjOn sha.hexdigest (hashInputs rs))
    (hcanon : Set.InjOn canonicalEventBytes {e | ∃ r ∈ rs, r.event = e})
    (hlen : ∀ r ∈ rs, r.prevHash.length = 64) : CollisionFree (computeEventHash sha) rs := by
  intro a ha b hb heq
  have htext := hsha ⟨a, ha, rfl⟩ ⟨b, hb, rfl⟩ heq
  obtain ⟨hprev, hcan⟩ := Text.append_inj_of_length htext (by rw [hlen a ha, hlen b hb])
  exact ⟨hprev, hcanon ⟨a, ha, rfl⟩ ⟨b, hb, rfl⟩ hcan⟩

theorem verifyChain_ok_of_tailTampered (events : List AuditEvent) {records : List ChainedAuditRecord}
    (h : TailTampered (computeEventHash sha) GENESIS_HASH (recordAll sha events) records) :
    (verifyChain sha records).ok = true :=
  (verifyChain_ok_iff sha _).mpr (linked_of_tailTampered (linked_build GENESIS_HASH events) h)

/-- Tampering with a log is reported exactly when it is not confined to the tail. -/
theorem verifyChain_detects_iff (sha : Sha256) (events : List AuditEvent)
    (records : List ChainedAuditRecord)
    (htampered : Tampered (computeEventHash sha) (recordAll sha events) records)
    (hsha : Set.InjOn sha.hexdigest (hashInputs (recordAll sha events ++ records)))
    (hcanon : Set.InjOn canonicalEventBytes
      {e | ∃ r ∈ recordAll sha events ++ records, r.event = e}) :
    (verifyChain sha records).ok = false ↔
      ¬TailTampered (computeEventHash sha) GENESIS_HASH (recordAll sha events) records := by
  have hl : Linked (computeEventHash sha) 0 GENESIS_HASH (recordAll sha events) :=
    linked_build GENESIS_HASH events
  have hgen : GENESIS_HASH.length = 64 := by decide
  rw [← Bool.not_eq_true, verifyChain_ok_iff, linked_iff_of_tampered hl htampered]
  intro hl'
  refine collisionFree_of_injOn hsha hcanon fun r hr => ?_
  rcases List.mem_append.mp hr with hr | hr
  · exact length_prevHash_of_linked hl hgen r hr
  · exact length_prevHash_of_linked hl' hgen r hr

/-! ### What a tail hash commits to -/

/-- The link over a text that is already canonical. -/
def textDigest (sha : Sha256) (prevHash text : String) : String := sha.hexdigest (prevHash ++ text)

/-- A record as the hash sees it. -/
def canonicalRecord (record : ChainedAuditRecord) : Record String String :=
  record.mapEvent canonicalEventBytes

theorem linked_canonicalRecord {rs : List ChainedAuditRecord} {n : ℤ} {h : String} :
    Linked (computeEventHash sha) n h rs ↔ Linked (textDigest sha) n h (rs.map canonicalRecord) :=
  linked_mapEvent (textDigest sha) canonicalEventBytes

/-- Canonical records hash alike only where they agree: the previous hash ends after 64 characters, so
    one hashed text splits in one way. -/
theorem collisionFree_canonicalRecord {rs : List ChainedAuditRecord}
    (hsha : Set.InjOn sha.hexdigest (hashInputs rs)) (hlen : ∀ r ∈ rs, r.prevHash.length = 64) :
    CollisionFree (textDigest sha) (rs.map canonicalRecord) := by
  intro a' ha' b' hb' heq
  obtain ⟨a, ha, rfl⟩ := List.mem_map.mp ha'
  obtain ⟨b, hb, rfl⟩ := List.mem_map.mp hb'
  have htext := hsha ⟨a, ha, rfl⟩ ⟨b, hb, rfl⟩ heq
  exact Text.append_inj_of_length htext ((hlen a ha).trans (hlen b hb).symm)

/-- No two records of a linked chain point at one hash, where nothing collides and nothing hashes to the
    genesis hash. -/
theorem nodup_prevHash_of_linked {rs : List ChainedAuditRecord}
    (hl : Linked (computeEventHash sha) 0 GENESIS_HASH rs) (hsha : Set.InjOn sha.hexdigest (hashInputs rs))
    (hgenesis : ∀ s ∈ hashInputs rs, sha.hexdigest s ≠ GENESIS_HASH) : (rs.map (·.prevHash)).Nodup := by
  have hlen := length_prevHash_of_linked hl (by decide)
  have hget : ∀ {k : ℕ} {r : ChainedAuditRecord}, rs[k]? = some r →
      (rs.map canonicalRecord)[k]? = some (canonicalRecord r) := by
    intro k r h; rw [List.getElem?_map, h]; rfl
  have hstart : ∀ r' ∈ rs.map canonicalRecord, textDigest sha r'.prevHash r'.event ≠ GENESIS_HASH := by
    intro r' hr'
    obtain ⟨r, hr, rfl⟩ := List.mem_map.mp hr'
    exact hgenesis _ ⟨r, hr, rfl⟩
  rw [List.Nodup, List.pairwise_map, List.pairwise_iff_getElem]
  intro j k hj hk hjk heq
  have hjk' := eq_of_prevHash (linked_canonicalRecord.mp hl) (collisionFree_canonicalRecord hsha hlen) hstart
    (hget (List.getElem?_eq_getElem hj)) (hget (List.getElem?_eq_getElem hk)) heq
  exact hjk.ne hjk'

/-- Two accepted record lists with one tail hash are one history: the same records in the same order, up
    to what the hash reads of their events. -/
theorem tailHash_binds_history (sha : Sha256) (a b : List ChainedAuditRecord)
    (ha : (verifyChain sha a).ok = true) (hb : (verifyChain sha b).ok = true)
    (htail : a.getLast?.map (·.eventHash) = b.getLast?.map (·.eventHash))
    (hsha : Set.InjOn sha.hexdigest (hashInputs (a ++ b)))
    (hgenesis : ∀ s ∈ hashInputs (a ++ b), sha.hexdigest s ≠ GENESIS_HASH) :
    a.length = b.length ∧ a.map canonicalRecord = b.map canonicalRecord := by
  rw [verifyChain_ok_iff] at ha hb
  have hgen : GENESIS_HASH.length = 64 := by decide
  have hlen : ∀ r ∈ a ++ b, r.prevHash.length = 64 := by
    intro r hr
    rcases List.mem_append.mp hr with hr | hr
    · exact length_prevHash_of_linked ha hgen r hr
    · exact length_prevHash_of_linked hb hgen r hr
  have hcf := collisionFree_canonicalRecord hsha hlen
  rw [List.map_append] at hcf
  have hend : endHash GENESIS_HASH (a.map canonicalRecord) =
      endHash GENESIS_HASH (b.map canonicalRecord) := by
    have hlast : ∀ rs : List ChainedAuditRecord,
        (rs.map canonicalRecord).getLast?.map Record.eventHash = rs.getLast?.map (·.eventHash) := by
      intro rs; rw [List.getLast?_map, Option.map_map]; rfl
    rw [endHash_eq_getLast?, endHash_eq_getLast?, hlast, hlast, htail]
  have heq : a.map canonicalRecord = b.map canonicalRecord := by
    refine eq_of_tailHash (linked_canonicalRecord.mp ha) (linked_canonicalRecord.mp hb) hcf ?_ hend
    intro r' hr'
    rw [← List.map_append] at hr'
    obtain ⟨r, hr, rfl⟩ := List.mem_map.mp hr'
    exact hgenesis _ ⟨r, hr, rfl⟩
  exact ⟨by simpa using congrArg List.length heq, heq⟩

/-! ### A log of two events -/

/-- Two events of one minute, with their SHA-256 digests in the chain. -/
def sampleEvent (n : String) : AuditEvent where
  eventId := "evt_" ++ n
  timestamp := ⟨2026, 6, 19, 0, 0, 0, 0⟩
  eventType := .proposed
  actionId := "act_" ++ n

def sampleHash0 : String := "ed0813a99a45b4830094805f61aac9b1672c3b43e188c64fccbdeff9fc6bba72"
def sampleHash1 : String := "f78ccfd7051ee4cc43ac21572b8c6344a1981226bea72000e6fff1447232ac35"

/-- SHA-256 on the two texts the sample log hashes. -/
def sampleSha : Sha256 where
  hexdigest s :=
    if s = GENESIS_HASH ++ canonicalEventBytes (sampleEvent "0") then sampleHash0
    else if s = sampleHash0 ++ canonicalEventBytes (sampleEvent "1") then sampleHash1
    else GENESIS_HASH
  length_hexdigest s := by split_ifs <;> decide

example : canonicalEventBytes (sampleEvent "0") =
    "\x7b\"action_id\":\"act_0\",\"actor\":\"system\",\"detail\":\x7b\x7d,\"event_id\":\"evt_0\"," ++
    "\"event_type\":\"proposed\",\"timestamp\":\"2026-06-19T00:00:00Z\",\"tool\":null\x7d" := by
  decide +kernel

def sampleRecord0 : ChainedAuditRecord := ⟨0, sampleEvent "0", GENESIS_HASH, sampleHash0⟩
def sampleRecord1 : ChainedAuditRecord := ⟨1, sampleEvent "1", sampleHash0, sampleHash1⟩

theorem hexdigest_sample0 :
    sampleSha.hexdigest (GENESIS_HASH ++ canonicalEventBytes (sampleEvent "0")) = sampleHash0 := by
  simp only [sampleSha, if_true]

theorem hexdigest_sample1 :
    sampleSha.hexdigest (sampleHash0 ++ canonicalEventBytes (sampleEvent "1")) = sampleHash1 := by
  have hne : sampleHash0 ++ canonicalEventBytes (sampleEvent "1") ≠
      GENESIS_HASH ++ canonicalEventBytes (sampleEvent "0") := by decide +kernel
  rw [sampleSha]
  simp only [if_neg hne, if_true]

theorem recordAll_sample :
    recordAll sampleSha [sampleEvent "0", sampleEvent "1"] = [sampleRecord0, sampleRecord1] := by
  simp only [recordAll, appendEvent, link, next, computeEventHash, List.foldl_cons, List.foldl_nil,
    List.nil_append, List.getLast?_nil, hexdigest_sample0, List.getLast?_singleton, hexdigest_sample1,
    List.cons_append, zero_add]
  rfl

/-- The digests of the sample log are collision-free, whichever of its records are looked at. -/
theorem injOn_sample (rs : List ChainedAuditRecord)
    (hsub : ∀ r ∈ rs, r = sampleRecord0 ∨ r = sampleRecord1) :
    Set.InjOn sampleSha.hexdigest (hashInputs rs) ∧
      Set.InjOn canonicalEventBytes {e | ∃ r ∈ rs, r.event = e} := by
  have hne : sampleHash0 ≠ sampleHash1 := by decide
  have hcanon : canonicalEventBytes (sampleEvent "0") ≠ canonicalEventBytes (sampleEvent "1") := by
    decide +kernel
  constructor
  · rintro _ ⟨a, ha, rfl⟩ _ ⟨b, hb, rfl⟩ heq
    rcases hsub a ha with rfl | rfl <;> rcases hsub b hb with rfl | rfl
    · rfl
    · exact absurd (hexdigest_sample0.symm.trans (heq.trans hexdigest_sample1)) hne
    · exact absurd (hexdigest_sample0.symm.trans (heq.symm.trans hexdigest_sample1)) hne
    · rfl
  · rintro _ ⟨a, ha, rfl⟩ _ ⟨b, hb, rfl⟩ heq
    rcases hsub a ha with rfl | rfl <;> rcases hsub b hb with rfl | rfl
    · rfl
    · exact absurd heq hcanon
    · exact absurd heq.symm hcanon
    · rfl

/-- The tail hash of the sample log binds its two records. -/
theorem tailHash_binds_sample :
    [sampleRecord0, sampleRecord1].map canonicalRecord =
      (recordAll sampleSha [sampleEvent "0", sampleEvent "1"]).map canonicalRecord := by
  have hok := verifyChain_recordAll sampleSha [sampleEvent "0", sampleEvent "1"]
  have hok' : (verifyChain sampleSha [sampleRecord0, sampleRecord1]).ok = true := by
    rw [← recordAll_sample]; exact hok
  have htail : [sampleRecord0, sampleRecord1].getLast?.map (·.eventHash) =
      (recordAll sampleSha [sampleEvent "0", sampleEvent "1"]).getLast?.map (·.eventHash) := by
    rw [recordAll_sample]
  have hsub : ∀ r ∈ [sampleRecord0, sampleRecord1] ++
      recordAll sampleSha [sampleEvent "0", sampleEvent "1"], r = sampleRecord0 ∨ r = sampleRecord1 := by
    rw [recordAll_sample]; simp
  refine (tailHash_binds_history sampleSha _ _ hok' hok htail (injOn_sample _ hsub).1 ?_).2
  rintro s ⟨r, hr, rfl⟩
  rcases hsub r hr with rfl | rfl
  · exact fun h => absurd (hexdigest_sample0.symm.trans h) (by decide)
  · exact fun h => absurd (hexdigest_sample1.symm.trans h) (by decide)

/-- Deleting the first record of the sample log is noticed. -/
theorem verifyChain_detects_deletion : (verifyChain sampleSha [sampleRecord1]).ok = false := by
  have hinj := injOn_sample (recordAll sampleSha [sampleEvent "0", sampleEvent "1"] ++ [sampleRecord1])
    (by rw [recordAll_sample]; simp)
  refine (verifyChain_detects_iff sampleSha [sampleEvent "0", sampleEvent "1"] [sampleRecord1]
    ?_ hinj.1 hinj.2).mpr fun htail => ?_
  · rw [recordAll_sample]
    exact .deleted (List.sublist_cons_self _ _) (by simp)
  · have hseq := (linked_of_tailTampered (linked_build GENESIS_HASH _) htail).1
    exact absurd hseq (by decide)

/-- Deleting the last record of the sample log is not noticed, though nothing in it collides. -/
theorem verifyChain_misses_truncation :
    Tampered (computeEventHash sampleSha) (recordAll sampleSha [sampleEvent "0", sampleEvent "1"])
      [sampleRecord0] ∧
    Set.InjOn sampleSha.hexdigest
      (hashInputs (recordAll sampleSha [sampleEvent "0", sampleEvent "1"] ++ [sampleRecord0])) ∧
    Set.InjOn canonicalEventBytes
      {e | ∃ r ∈ recordAll sampleSha [sampleEvent "0", sampleEvent "1"] ++ [sampleRecord0], r.event = e} ∧
    (verifyChain sampleSha [sampleRecord0]).ok = true := by
  have hinj := injOn_sample (recordAll sampleSha [sampleEvent "0", sampleEvent "1"] ++ [sampleRecord0])
    (by rw [recordAll_sample]; simp)
  have hpre : [sampleRecord0] <+: [sampleRecord0, sampleRecord1] := List.prefix_append _ [sampleRecord1]
  refine ⟨?_, hinj.1, hinj.2, ?_⟩
  · rw [recordAll_sample]
    exact .deleted hpre.sublist (by simp)
  · refine verifyChain_ok_of_tailTampered [sampleEvent "0", sampleEvent "1"] ?_
    rw [recordAll_sample]
    exact .truncated hpre (by simp)

end Atlas
