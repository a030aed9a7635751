import Atlas.Knowledge.Sources

/-! Ingesting a document again. What a call leaves under the ids it touches does not depend on what was
    there, and elsewhere it changes nothing. So a second run with nothing in between changes nothing
    (`reingest_idempotent`), and a re-ingest gives its acl to everything of the document but what it does
    not touch: the windows beyond its own and, where it persists no extraction, the concepts of an earlier
    run (`reingest_acl`). -/

namespace Atlas

open Text InMemoryKnowledgeGraph

/-! ### Ingesting a second time -/

/-- Between two states nothing changed in the namespace of the call: the ids it touches hold the same
    entities, and the same edges touch the extraction prefix. -/
structure NamespaceKept (rt : IngestRuntime) (c : IngestCall) (g g' : InMemoryKnowledgeGraph) : Prop where
  entities : ∀ who plan, planIngest rt c.service c.principal c.document = .ok (who, plan) →
    ∀ k, Touched rt c plan k → g'.entities.get? k = g.entities.get? k
  relations : ∀ who plan, planIngest rt c.service c.principal c.document = .ok (who, plan) →
    ∀ r, touches (extractionEntityPrefix plan.ownerSegment plan.sourceId) r = true →
      (r ∈ g'.relations ↔ r ∈ g.relations)

/-- Two graphs hold the same entities under the same ids and the same edges. -/
structure SameLookups (g g' : InMemoryKnowledgeGraph) : Prop where
  entities : ∀ k, g'.entities.get? k = g.entities.get? k
  relations : ∀ r, r ∈ g'.relations ↔ r ∈ g.relations

/-- The answer of an ingest does not depend on the state. -/
theorem ingest_result_congr (rt : IngestRuntime) (service : IngestionService) (fails : ℕ → Option PyError)
    (principal : Option Principal) (document : IngestDocument) (st st' : KnowledgeState) :
    (ingest rt service fails principal document st').1 =
      (ingest rt service fails principal document st).1 := by
  cases hplan : planIngest rt service principal document with
  | error err => rw [ingest_of_error st hplan, ingest_of_error st' hplan]
  | ok res => rw [ingest_of_ok st hplan, ingest_of_ok st' hplan]

/-- A call whose namespace holds what its first run left there changes nothing. -/
theorem sameLookups_apply {rt : IngestRuntime} {c : IngestCall} {st st' : KnowledgeState}
    (h : NamespaceKept rt c (c.apply rt st).graph st'.graph) :
    SameLookups st'.graph (c.apply rt st').graph := by
  cases hplan : planIngest rt c.service c.principal c.document with
  | error err =>
    rw [IngestCall.apply, ingest_of_error st' hplan]
    exact ⟨fun _ => rfl, fun _ => Iff.rfl⟩
  | ok res =>
    obtain ⟨who, plan⟩ := res
    refine ⟨fun k => ?_, fun r => ?_⟩
    · by_cases hk : Touched rt c plan k
      · calc (c.apply rt st').graph.entities.get? k
            = (c.apply rt st).graph.entities.get? k := get?_apply_congr hplan hk
          _ = st'.graph.entities.get? k := (h.entities who plan hplan k hk).symm
      · exact get?_apply_of_not_touched hplan hk
    · have hrel := h.relations who plan hplan r
      rw [mem_relations_apply hplan] at hrel ⊢
      cases hx : extractionOf rt c.service c.document plan c.fails with
      | none => exact Iff.rfl
      | some p =>
        obtain ⟨es, rs⟩ := p
        simp only [hx] at hrel ⊢
        split
        next ht =>
          rw [if_pos ht] at hrel
          exact (hrel ht).symm
        next => exact Iff.rfl

/-- Ingesting a document again changes neither the entities nor the edges and answers the same, right
    after the first run and in every later state whose namespace is as that run left it. -/
theorem reingest_idempotent (rt : IngestRuntime) (c : IngestCall) (st st' : KnowledgeState)
    (h : NamespaceKept rt c (c.apply rt st).graph st'.graph) :
    SameLookups st'.graph (c.apply rt st').graph ∧
      SameLookups (c.apply rt st).graph (c.apply rt (c.apply rt st)).graph ∧
      (ingest rt c.service c.fails c.principal c.document st').1 =
        (ingest rt c.service c.fails c.principal c.document st).1 := by
  have hkept : NamespaceKept rt c (c.apply rt st).graph (c.apply rt st).graph :=
    ⟨fun _ _ _ _ _ => rfl, fun _ _ _ _ _ => Iff.rfl⟩
  exact ⟨sameLookups_apply h, sameLookups_apply hkept, ingest_result_congr ..⟩

/-- What writes an entity the call does not touch and an edge off its prefix keeps the namespace. -/
theorem namespaceKept_of_write {rt : IngestRuntime} {c : IngestCall} {who : Principal} {plan : IngestPlan}
    (hplan : planIngest rt c.service c.principal c.document = .ok (who, plan)) {e : Entity} {r : Relation}
    (he : ¬Touched rt c plan e.id)
    (hr : touches (extractionEntityPrefix plan.ownerSegment plan.sourceId) r = false)
    (g : InMemoryKnowledgeGraph) : NamespaceKept rt c g ((g.upsertEntity e).addRelation r) := by
  have hsame : ∀ who' plan', planIngest rt c.service c.principal c.document = .ok (who', plan') →
      plan' = plan := by
    intro who' plan' hplan'
    rw [hplan, Except.ok.injEq, Prod.mk.injEq] at hplan'
    exact hplan'.2.symm
  refine ⟨fun who' plan' hplan' k hk => ?_, fun who' plan' hplan' s hs => ?_⟩
  · rw [hsame who' plan' hplan'] at hk
    have hne : k ≠ e.id := by rintro rfl; exact he hk
    exact Dict.get?_set_ne _ _ hne
  · rw [hsame who' plan' hplan'] at hs
    have hne : s ≠ r := by rintro rfl; rw [hr] at hs; cases hs
    rw [mem_addRelation, or_iff_left hne]
    rfl

/-- Another note of the user points into the namespace of note `a` before its first run. -/
def pointedAt : KnowledgeState :=
  { graph := (afterFirst "b").graph.addRelation
      ⟨"personal:u:b:0000", "personal:u:a:entity:person:f7b5e9049ca2", "cites"⟩ }

/-- Between the two runs a third note arrives, with an edge to the second. -/
def betweenRuns : KnowledgeState :=
  { graph := (((conceptOf "u" "a").apply conceptRuntime pointedAt).graph.upsertEntity
      ⟨"personal:u:c:0000", "doc", "note [0]", "later", ["kg:read:user:u"], .personal⟩).addRelation
      ⟨"personal:u:c:0000", "personal:u:b:0000", "cites"⟩ }

theorem reingest_idempotent_note :
    SameLookups betweenRuns.graph ((conceptOf "u" "a").apply conceptRuntime betweenRuns).graph := by
  refine (reingest_idempotent conceptRuntime (conceptOf "u" "a") pointedAt betweenRuns ?_).1
  have hplan : planIngest conceptRuntime (conceptOf "u" "a").service (conceptOf "u" "a").principal
      (conceptOf "u" "a").document = .ok ({ userId := "u" },
        ⟨.personal, ["kg:read:user:u"], "personal:u", "a", ["hello"]⟩) := rfl
  refine namespaceKept_of_write hplan ?_ rfl _
  rintro (⟨index, -, hid⟩ | ⟨-, hpre⟩)
  · obtain ⟨hsource, -⟩ := chunkId_inj.mp
      (show chunkId "personal:u" "c" 0 = chunkId "personal:u" "a" index from hid)
    exact absurd hsource (by decide)
  · exact absurd hpre (by decide)

/-! ### The acl of a document -/

/-- What a re-ingest leaves of a document as it was: the windows beyond its own, and the concepts when it
    persists no extraction. -/
def LeftOver (rt : IngestRuntime) (c : IngestCall) (plan : IngestPlan) (e : Entity) : Prop :=
  (∃ index, plan.chunks.length ≤ index ∧ e.id = chunkId plan.ownerSegment plan.sourceId index) ∨
    (extractionOf rt c.service c.document plan c.fails = none ∧
      hasPrefix (extractionEntityPrefix plan.ownerSegment plan.sourceId) e.id = true)

theorem not_nested_self (s : String) : ¬Nested s s := by
  intro h
  obtain ⟨u, hu⟩ := hasPrefix_iff.mp h
  have hlen := congrArg String.length hu
  simp only [String.length_append] at hlen
  have hentity : (":entity:" : String).length = 8 := rfl
  have hcolon : (":" : String).length = 1 := rfl
  omega

/-- The entities of a document are touched by a re-ingest or left over, never both. -/
theorem leftOver_iff {rt : IngestRuntime} {c : IngestCall} {plan : IngestPlan} {e : Entity}
    (he : SourceEntity rt plan.ownerSegment plan.sourceId e) :
    LeftOver rt c plan e ↔ ¬Touched rt c plan e.id := by
  have hnone : extractionOf rt c.service c.document plan c.fails = none ↔
      ¬(extractionOf rt c.service c.document plan c.fails).isSome = true := by
    rw [Bool.not_eq_true, Option.isSome_eq_false_iff, Option.isNone_iff_eq_none]
  rw [LeftOver, Touched, not_or, not_and]
  cases he with
  | window i hid _ =>
    have hpre : ¬hasPrefix (extractionEntityPrefix plan.ownerSegment plan.sourceId) e.id = true := by
      rw [hid, hasPrefix_chunkId]
      exact not_nested_self _
    have hindex : ∀ j, e.id = chunkId plan.ownerSegment plan.sourceId j ↔ i = j := fun j => by
      rw [hid, chunkId_inj, and_iff_right rfl]
    simp only [hpre, hindex, Bool.false_eq_true, and_false, or_false, not_false_eq_true, implies_true,
      and_true, exists_eq_right', not_lt]
  | concept kind name hid _ =>
    have hpre : hasPrefix (extractionEntityPrefix plan.ownerSegment plan.sourceId) e.id = true := by
      rw [hid]; exact hasPrefix_extractedEntityId rt _ _ _ _
    have hchunk : ∀ j, e.id ≠ chunkId plan.ownerSegment plan.sourceId j := by
      intro j hj
      rw [hj, hasPrefix_chunkId] at hpre
      exact not_nested_self _ hpre
    simp only [hpre, hchunk, and_false, exists_false, false_or, and_true, not_false_eq_true, true_and,
      not_true_eq_false, imp_false, hnone]

/-- The entity carries another acl or scope than the plan resolves. -/
def Stale (plan : IngestPlan) (e : Entity) : Prop := ¬(e.acl = plan.acl ∧ e.scope = plan.scope)

/-- Nothing the graph holds of the plan's document, as written by the calls, is stale. -/
def NothingStale (rt : IngestRuntime) (calls : List IngestCall) (plan : IngestPlan)
    (g : InMemoryKnowledgeGraph) : Prop :=
  ∀ e, WroteUnder rt calls plan.ownerSegment plan.sourceId e → g.entities.get? e.id = some e →
    ¬Stale plan e

/-- After a re-ingest, whatever the store holds of the document carries the acl and the scope this call
    resolved, save what it left over, which is as it was. So the whole document carries them if and only
    if nothing stale was left over. -/
theorem reingest_acl (rt : IngestRuntime) (start : KnowledgeState) (calls : List IngestCall)
    (c : IngestCall) (who : Principal) (plan : IngestPlan)
    (hplan : planIngest rt c.service c.principal c.document = .ok (who, plan)) :
    (∀ e, WroteUnder rt (c :: calls) plan.ownerSegment plan.sourceId e →
      (c.apply rt (ingestAll rt calls start)).graph.entities.get? e.id = some e →
        (e.acl = plan.acl ∧ e.scope = plan.scope) ∨
        (LeftOver rt c plan e ∧ (ingestAll rt calls start).graph.entities.get? e.id = some e)) ∧
    (NothingStale rt (c :: calls) plan (c.apply rt (ingestAll rt calls start)).graph ↔
      ∀ e, WroteUnder rt calls plan.ownerSegment plan.sourceId e →
        (ingestAll rt calls start).graph.entities.get? e.id = some e → Stale plan e →
          ¬LeftOver rt c plan e) := by
  have hcases : ∀ e, WroteUnder rt (c :: calls) plan.ownerSegment plan.sourceId e →
      (c.apply rt (ingestAll rt calls start)).graph.entities.get? e.id = some e →
        (e.acl = plan.acl ∧ e.scope = plan.scope) ∨
        (LeftOver rt c plan e ∧ (ingestAll rt calls start).graph.entities.get? e.id = some e) := by
    intro e hwrote hget
    by_cases ht : Touched rt c plan e.id
    · exact Or.inl (IngestCall.acl_of_written hplan (written_of_touched hplan ht hget))
    · rw [get?_apply_of_not_touched hplan ht] at hget
      exact Or.inr ⟨(leftOver_iff (sourceEntity_of_under hwrote)).mpr ht, hget⟩
  refine ⟨hcases, fun h e hwrote hget hstale hleft => ?_, fun h e hwrote hget hstale => ?_⟩
  · have ht := (leftOver_iff (sourceEntity_of_under hwrote)).mp hleft
    obtain ⟨d, hd, hunder, he⟩ := hwrote
    refine h e ⟨d, List.mem_cons_of_mem _ hd, hunder, he⟩ ?_ hstale
    rw [get?_apply_of_not_touched hplan ht, hget]
  · rcases hcases e hwrote hget with hacl | ⟨hleft, hget⟩
    · exact hstale hacl
    · obtain ⟨d, hd, hunder, he⟩ := hwrote
      rcases List.mem_cons.mp hd with rfl | hd
      · exact hstale (IngestCall.acl_of_written hplan he)
      · exact h e ⟨d, hd, hunder, he⟩ hget hstale hleft

/-! ### A memo whose acl is narrowed -/

/-- An administrator ingests an organization note in windows of four characters. -/
def memoOf (text : String) (acl : List String) (h : text ≠ "") : IngestCall where
  service := { (noteOf "root" "memo").service with chunkSize := 4, chunkOverlap := 0 }
  principal := some { userId := "root", roles := ["admin"] }
  document :=
    { (noteOf "root" "memo").document with
      text := text, scope := .org, orgAcl := some acl, text_nonempty := h }

def openMemo : IngestCall := memoOf "aaaa" ["kg:read:org"] (by decide)
def longMemo : IngestCall := memoOf "aaaabbbb" ["kg:read:org"] (by decide)
def boardMemo : IngestCall := memoOf "cccc" ["kg:read:board"] (by decide)

/-- The plan of `boardMemo`. -/
def boardPlan : IngestPlan := ⟨.org, ["kg:read:board"], "org", "memo", ["cccc"]⟩

/-- A memo of one window takes the acl of its re-ingest. -/
theorem reingest_acl_memo : NothingStale conceptRuntime [boardMemo, openMemo] boardPlan
    (boardMemo.apply conceptRuntime (ingestAll conceptRuntime [openMemo] { graph := .empty none })).graph := by
  refine (reingest_acl conceptRuntime { graph := .empty none } [openMemo] boardMemo
    { userId := "root", roles := ["admin"] } boardPlan rfl).2.mpr ?_
  intro e hwrote _ _
  obtain ⟨d, hd, -, he⟩ := hwrote
  obtain rfl := List.mem_singleton.mp hd
  obtain rfl : e = ⟨"org:memo:0000", "doc", "note [0]", "aaaa", ["kg:read:org"], .org⟩ :=
    List.mem_singleton.mp he
  rintro (⟨index, hle, hid⟩ | ⟨-, hpre⟩)
  · obtain ⟨-, rfl⟩ := chunkId_inj.mp (show chunkId "org" "memo" 0 = chunkId "org" "memo" index from hid)
    exact absurd hle (by decide)
  · exact absurd hpre (by decide)

/-- The second window of a longer memo keeps the old acl, and a member still reads it. -/
theorem narrowed_acl_leaks :
    ∃ e, WroteUnder conceptRuntime [longMemo] "org" "memo" e ∧
      (boardMemo.apply conceptRuntime (ingestAll conceptRuntime [longMemo]
        { graph := .empty none })).graph.entities.get? e.id = some e ∧
      Stale boardPlan e ∧ canRead (some { userId := "eve", roles := ["member"] }) e none = true ∧
      canRead (some { userId := "eve", roles := ["member"] }) { e with acl := boardPlan.acl } none =
        false := by
  refine ⟨⟨"org:memo:0001", "doc", "note [1]", "bbbb", ["kg:read:org"], .org⟩, ?_, rfl, ?_, rfl, rfl⟩
  · exact ⟨longMemo, List.mem_singleton.mpr rfl, ⟨_, _, rfl, rfl, rfl⟩,
      List.mem_cons_of_mem _ List.mem_cons_self⟩
  · exact fun h => absurd h.1 (by decide)

end Atlas
