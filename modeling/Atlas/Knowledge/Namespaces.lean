import Atlas.Knowledge.Isolation

/-! Whose entities an ingest can touch. `Touched` are the ids a call decides alone, whatever was there
    (`get?_apply_congr`); elsewhere it changes nothing. A personal id is `personal:{user}:{source}:…`, and
    neither the user id nor the source id is escaped, so two users' ids can coincide although their names
    differ. `frameKept_iff` says exactly when an ingest of one user leaves the knowledge of another as it
    was: when none of the ids it writes or deletes is one of theirs. User ids without a colon never clash
    (`frameKept_of_plain`). -/

namespace Atlas

open Text InMemoryKnowledgeGraph

/-- The entity is one that some personal ingest of the principal writes. -/
def WroteEntity (rt : IngestRuntime) (q : Principal) (e : Entity) : Prop :=
  ∃ c : IngestCall, c.principal = some q ∧ c.document.scope = .personal ∧ e ∈ c.writtenEntities rt

/-- The same for an edge. -/
def WroteRelation (rt : IngestRuntime) (q : Principal) (r : Relation) : Prop :=
  ∃ c : IngestCall, c.principal = some q ∧ c.document.scope = .personal ∧ r ∈ c.writtenRelations rt

/-- Everything of `q` that the graph holds is still there, as it was. -/
structure FrameKept (rt : IngestRuntime) (q : Principal) (g g' : InMemoryKnowledgeGraph) : Prop where
  entities : ∀ e, WroteEntity rt q e → g.entities.get? e.id = some e → g'.entities.get? e.id = some e
  relations : ∀ r, WroteRelation rt q r → r ∈ g.relations → r ∈ g'.relations

/-- No entity of `q` in the graph has an id the call upserts a window under, and, where the call persists
    an extraction, none lies under its extraction prefix, and of the edges of `q` that touch the prefix
    none is missing from the new ones. -/
def NoClash (rt : IngestRuntime) (c : IngestCall) (q : Principal) (g : InMemoryKnowledgeGraph) : Prop :=
  ∀ who plan, planIngest rt c.service c.principal c.document = .ok (who, plan) →
    (∀ e, WroteEntity rt q e → g.entities.get? e.id = some e →
      ∀ index < plan.chunks.length, e.id ≠ chunkId plan.ownerSegment plan.sourceId index) ∧
    ∀ es rs, extractionOf rt c.service c.document plan c.fails = some (es, rs) →
      (∀ e, WroteEntity rt q e → g.entities.get? e.id = some e →
        hasPrefix (extractionEntityPrefix plan.ownerSegment plan.sourceId) e.id = false) ∧
      ∀ r, WroteRelation rt q r → r ∈ g.relations →
        touches (extractionEntityPrefix plan.ownerSegment plan.sourceId) r = true → r ∈ rs

theorem map_id_chunkEntities (document : IngestDocument) (plan : IngestPlan) {k : String} :
    k ∈ (chunkEntities document plan).map (·.id) ↔
      ∃ index < plan.chunks.length, k = chunkId plan.ownerSegment plan.sourceId index := by
  rw [List.mem_map]
  constructor
  · rintro ⟨e, he, rfl⟩
    exact (mem_chunkEntities he).2.2
  · rintro ⟨index, hlt, rfl⟩
    exact ⟨_, List.mem_mapIdx.mpr ⟨index, hlt, rfl⟩, rfl⟩

/-! ### What a call leaves -/

/-- The ids an accepted call writes or drops. -/
def Touched (rt : IngestRuntime) (c : IngestCall) (plan : IngestPlan) (k : String) : Prop :=
  (∃ index < plan.chunks.length, k = chunkId plan.ownerSegment plan.sourceId index) ∨
    ((extractionOf rt c.service c.document plan c.fails).isSome = true ∧
      hasPrefix (extractionEntityPrefix plan.ownerSegment plan.sourceId) k = true)

section call
variable {rt : IngestRuntime} {c : IngestCall} {who : Principal} {plan : IngestPlan}
  {st st' : KnowledgeState} {k : String} {e : Entity}
  (hplan : planIngest rt c.service c.principal c.document = .ok (who, plan))
include hplan

theorem graph_apply :
    (c.apply rt st).graph = withExtraction plan (st.graph.upsertAll (chunkEntities c.document plan))
      (extractionOf rt c.service c.document plan c.fails) :=
  ingest_graph st hplan

/-- Under a touched id the state before plays no part. -/
theorem get?_apply_congr (h : Touched rt c plan k) :
    (c.apply rt st).graph.entities.get? k = (c.apply rt st').graph.entities.get? k := by
  rw [graph_apply hplan, graph_apply hplan]
  have hchunks : (∃ index < plan.chunks.length, k = chunkId plan.ownerSegment plan.sourceId index) →
      (st.graph.upsertAll (chunkEntities c.document plan)).entities.get? k =
        (st'.graph.upsertAll (chunkEntities c.document plan)).entities.get? k :=
    fun h => get?_upsertAll_congr (Or.inl ((map_id_chunkEntities _ _).mpr h))
  cases hx : extractionOf rt c.service c.document plan c.fails with
  | none =>
    rw [Touched, hx] at h
    exact hchunks (h.resolve_right (fun h => Bool.noConfusion h.1))
  | some p =>
    obtain ⟨es, rs⟩ := p
    refine get?_replaceExtraction_congr ?_
    rcases h with hchunk | ⟨-, hpre⟩
    · exact Or.inr (hchunks hchunk)
    · exact Or.inl hpre

/-- So what it holds after the call was written by it: in an empty store there is nothing else. -/
theorem written_of_touched (h : Touched rt c plan k)
    (hget : (c.apply rt st).graph.entities.get? k = some e) : e ∈ c.writtenEntities rt := by
  have hempty : (c.apply rt ⟨.empty none, none⟩).graph.entities.get? k = some e :=
    (get?_apply_congr hplan h).trans hget
  exact (IngestCall.stored_apply hempty).resolve_left (by simp [InMemoryKnowledgeGraph.empty])

/-- Elsewhere the graph answers as before. -/
theorem get?_apply_of_not_touched (h : ¬Touched rt c plan k) :
    (c.apply rt st).graph.entities.get? k = st.graph.entities.get? k := by
  rw [Touched, not_or, not_and, ← map_id_chunkEntities c.document plan] at h
  obtain ⟨hchunk, hpre⟩ := h
  rw [graph_apply hplan]
  cases hx : extractionOf rt c.service c.document plan c.fails with
  | none => exact get?_upsertAll_of_not_mem hchunk
  | some p =>
    obtain ⟨es, rs⟩ := p
    have hk := hpre (by rw [hx]; rfl)
    have hes : k ∉ es.map (·.id) := by
      rw [List.mem_map]
      rintro ⟨e, he, rfl⟩
      exact hk (mem_extractionOf hx he).2.2
    calc (withExtraction plan _ (some (es, rs))).entities.get? k
        = (st.graph.upsertAll (chunkEntities c.document plan)).entities.get? k :=
          get?_replaceExtraction_of_not_mem (by simpa using hk) hes
      _ = st.graph.entities.get? k := get?_upsertAll_of_not_mem hchunk

/-- The edges after a call: those before, save that a persisted extraction replaces those that touch its
    prefix. -/
theorem mem_relations_apply {r : Relation} : r ∈ (c.apply rt st).graph.relations ↔
    match extractionOf rt c.service c.document plan c.fails with
    | none => r ∈ st.graph.relations
    | some (_, rs) =>
      if touches (extractionEntityPrefix plan.ownerSegment plan.sourceId) r = true then r ∈ rs
      else r ∈ st.graph.relations := by
  rw [graph_apply hplan]
  cases hx : extractionOf rt c.service c.document plan c.fails with
  | none => rw [withExtraction, relations_upsertAll]
  | some p =>
    obtain ⟨es, rs⟩ := p
    rw [withExtraction, mem_replaceExtraction, relations_upsertAll]
    simp only
    split
    next ht => simp [ht]
    next ht =>
      -- the new edges all end under the prefix
      refine or_iff_left_of_imp (fun hr => absurd ?_ ht) |>.trans (and_iff_left (by simpa using ht))
      obtain ⟨e, he, hid⟩ := List.mem_map.mp (endpoints_of_extractionOf hx hr).2
      rw [touches, ← hid, (mem_extractionOf hx he).2.2, Bool.or_true]

/-- An edge survives a call unless it touches the prefix of a persisted extraction that lacks it. -/
theorem mem_relations_apply_of_mem {r : Relation} (hstored : r ∈ st.graph.relations)
    (hkept : ∀ es rs, extractionOf rt c.service c.document plan c.fails = some (es, rs) →
      touches (extractionEntityPrefix plan.ownerSegment plan.sourceId) r = true → r ∈ rs) :
    r ∈ (c.apply rt st).graph.relations := by
  rw [mem_relations_apply hplan]
  cases hx : extractionOf rt c.service c.document plan c.fails with
  | none => exact hstored
  | some p =>
    obtain ⟨es, rs⟩ := p
    simp only
    split
    next ht => exact hkept es rs hx ht
    next => exact hstored

end call

/-- An entity of one user is not one that another user's personal call writes: their acls differ. -/
theorem not_written_of_wrote {rt : IngestRuntime} {c : IngestCall} {p q : Principal} {e : Entity}
    (hp : c.principal = some p) (hscope : c.document.scope = .personal) (hne : p.userId ≠ q.userId)
    (hq : WroteEntity rt q e) : e ∉ c.writtenEntities rt := by
  intro hmem
  obtain ⟨who, hwho, hacl⟩ := IngestCall.personal_acl_of_mem hscope hmem
  obtain ⟨cq, hcq, hscope', hmem'⟩ := hq
  obtain ⟨who', hwho', hacl'⟩ := IngestCall.personal_acl_of_mem hscope' hmem'
  rw [hp, Option.some.injEq] at hwho
  rw [hcq, Option.some.injEq] at hwho'
  rw [hacl, List.cons.injEq, identityAcl, identityAcl, String.append_right_inj] at hacl'
  exact hne (by rw [hwho, hwho', hacl'.1])

theorem noClash_of_frameKept {rt : IngestRuntime} {c : IngestCall} {p q : Principal} {st : KnowledgeState}
    (hp : c.principal = some p) (hscope : c.document.scope = .personal) (hne : p.userId ≠ q.userId)
    (h : FrameKept rt q st.graph (c.apply rt st).graph) : NoClash rt c q st.graph := by
  intro who plan hplan
  refine ⟨fun e hq hstored index hlt hid => ?_, fun es rs hx => ⟨fun e hq hstored => ?_, ?_⟩⟩
  · have htouched : Touched rt c plan e.id := Or.inl ⟨index, hlt, hid⟩
    exact not_written_of_wrote hp hscope hne hq (written_of_touched hplan htouched (h.entities e hq hstored))
  · rw [← Bool.not_eq_true]
    intro hk
    have htouched : Touched rt c plan e.id := Or.inr ⟨by rw [hx]; rfl, hk⟩
    exact not_written_of_wrote hp hscope hne hq (written_of_touched hplan htouched (h.entities e hq hstored))
  · intro r hr hstored htouch
    have hkept := h.relations r hr hstored
    rw [mem_relations_apply hplan, hx] at hkept
    simpa only [htouch, if_true] using hkept

theorem frameKept_of_noClash {rt : IngestRuntime} {c : IngestCall} {q : Principal} {st : KnowledgeState}
    (h : NoClash rt c q st.graph) : FrameKept rt q st.graph (c.apply rt st).graph := by
  cases hplan : planIngest rt c.service c.principal c.document with
  | error err =>
    have hsame : c.apply rt st = st := by rw [IngestCall.apply, ingest_of_error st hplan]
    rw [hsame]
    exact ⟨fun _ _ h => h, fun _ _ h => h⟩
  | ok res =>
    obtain ⟨who, plan⟩ := res
    obtain ⟨hchunk, hext⟩ := h who plan hplan
    refine ⟨fun e hq hstored => ?_, fun r hr hstored => ?_⟩
    · rw [get?_apply_of_not_touched hplan, hstored]
      rintro (⟨index, hlt, hid⟩ | ⟨hsome, hk⟩)
      · exact hchunk e hq hstored index hlt hid
      · obtain ⟨⟨es, rs⟩, hx⟩ := Option.isSome_iff_exists.mp hsome
        rw [(hext es rs hx).1 e hq hstored] at hk
        cases hk
    · exact mem_relations_apply_of_mem hplan hstored fun es rs hx => (hext es rs hx).2 r hr hstored

/-- A personal ingest of one user leaves the personal knowledge of another exactly as it was if and only
    if none of its ids clashes with one of theirs. -/
theorem frameKept_iff (rt : IngestRuntime) (c : IngestCall) (p q : Principal) (st : KnowledgeState)
    (hp : c.principal = some p) (hscope : c.document.scope = .personal) (hne : p.userId ≠ q.userId) :
    FrameKept rt q st.graph (c.apply rt st).graph ↔ NoClash rt c q st.graph :=
  ⟨noClash_of_frameKept hp hscope hne, frameKept_of_noClash⟩

/-! ### User ids without a colon -/

/-- The id lies in the namespace of the user. -/
def Owned (userId id : String) : Prop := hasPrefix (personalSegment userId ++ ":") id = true

theorem owned_chunkId (u source : String) (index : ℕ) :
    Owned u (chunkId (personalSegment u) source index) :=
  hasPrefix_iff.mpr ⟨source ++ ":" ++ pad4 index, by simp only [chunkId, String.append_assoc]⟩

theorem owned_of_hasPrefix {u source id : String}
    (h : hasPrefix (extractionEntityPrefix (personalSegment u) source) id = true) : Owned u id :=
  hasPrefix_trans (hasPrefix_iff.mpr
    ⟨source ++ ":entity:", by simp only [extractionEntityPrefix, String.append_assoc]⟩) h

/-- Without colons in the user ids, an id tells its user. -/
theorem owned_unique {u v id : String} (hu : ':' ∉ u.toList) (hv : ':' ∉ v.toList) (h : Owned u id)
    (h' : Owned v id) : u = v := by
  obtain ⟨t, rfl⟩ := hasPrefix_iff.mp h
  obtain ⟨t', ht'⟩ := hasPrefix_iff.mp h'
  simp only [personalSegment, String.append_assoc, String.append_right_inj] at ht'
  have hlist := congrArg String.toList ht'
  simp only [String.toList_append] at hlist
  exact String.toList_injective (eq_of_append_separator hu hv hlist)

/-- A personal plan of a principal writes into the principal's namespace. -/
theorem owned_of_written {rt : IngestRuntime} {c : IngestCall} {p : Principal}
    (hp : c.principal = some p) (hscope : c.document.scope = .personal) {who : Principal}
    {plan : IngestPlan} (hplan : planIngest rt c.service c.principal c.document = .ok (who, plan)) :
    plan.ownerSegment = personalSegment p.userId ∧
      (∀ k ∈ (chunkEntities c.document plan).map (·.id), Owned p.userId k) ∧
      ∀ es rs, extractionOf rt c.service c.document plan c.fails = some (es, rs) →
        ∀ k ∈ es.map (·.id), Owned p.userId k := by
  obtain ⟨hwho, -, hres, -⟩ := admit_eq_ok hplan
  rw [hp, Option.some.injEq] at hwho
  have howner : plan.ownerSegment = personalSegment p.userId := by
    rw [hwho]; exact (resolveScopeAcl_personal hscope hres).2.2
  refine ⟨howner, fun k hk => ?_, fun es rs hx k hk => ?_⟩
  · obtain ⟨index, -, rfl⟩ := (map_id_chunkEntities c.document plan).mp hk
    rw [howner]; exact owned_chunkId _ _ _
  · obtain ⟨e, he, rfl⟩ := List.mem_map.mp hk
    have hpre := (mem_extractionOf hx he).2.2
    rw [howner] at hpre
    exact owned_of_hasPrefix hpre

theorem owned_of_wroteEntity {rt : IngestRuntime} {q : Principal} {e : Entity} (h : WroteEntity rt q e) :
    Owned q.userId e.id := by
  obtain ⟨c, hq, hscope, hmem⟩ := h
  obtain ⟨who, plan, hplan, hmem⟩ := IngestCall.mem_writtenEntities.mp hmem
  obtain ⟨-, hchunk, hext⟩ := owned_of_written hq hscope hplan
  rcases hmem with hmem | ⟨es, rs, hx, hmem⟩
  · exact hchunk _ (List.mem_map_of_mem hmem)
  · exact hext es rs hx _ (List.mem_map_of_mem hmem)

theorem owned_of_wroteRelation {rt : IngestRuntime} {q : Principal} {r : Relation}
    (h : WroteRelation rt q r) : Owned q.userId r.srcId ∧ Owned q.userId r.dstId := by
  obtain ⟨c, hq, hscope, hmem⟩ := h
  obtain ⟨who, plan, es, rs, hplan, hx, hmem⟩ := IngestCall.mem_writtenRelations.mp hmem
  obtain ⟨-, hchunk, hext⟩ := owned_of_written hq hscope hplan
  obtain ⟨hsrc, hdst⟩ := endpoints_of_extractionOf hx hmem
  exact ⟨hsrc.elim (hchunk _) (hext es rs hx _), hext es rs hx _ hdst⟩

/-- Users whose ids have no colon never clash. -/
theorem noClash_of_plain {rt : IngestRuntime} {c : IngestCall} {p q : Principal}
    {g : InMemoryKnowledgeGraph} (hp : c.principal = some p) (hscope : c.document.scope = .personal)
    (hne : p.userId ≠ q.userId) (hpc : ':' ∉ p.userId.toList) (hqc : ':' ∉ q.userId.toList) :
    NoClash rt c q g := by
  intro who plan hplan
  obtain ⟨howner, hchunk, -⟩ := owned_of_written hp hscope hplan
  have hapart : ∀ k, Owned q.userId k → ¬Owned p.userId k :=
    fun k hq hp => hne (owned_unique hpc hqc hp hq)
  refine ⟨fun e hq _ index hlt hid => ?_, fun es rs _ => ⟨fun e hq _ => ?_, fun r hr _ htouch => ?_⟩⟩
  · refine hapart _ (owned_of_wroteEntity hq) (hchunk _ ?_)
    exact (map_id_chunkEntities c.document plan).mpr ⟨index, hlt, hid⟩
  · rw [← Bool.not_eq_true, howner]
    exact fun hk => hapart _ (owned_of_wroteEntity hq) (owned_of_hasPrefix hk)
  · obtain ⟨hsrc, hdst⟩ := owned_of_wroteRelation hr
    rw [howner, touches, Bool.or_eq_true] at htouch
    rcases htouch with hk | hk
    · exact absurd (owned_of_hasPrefix hk) (hapart _ hsrc)
    · exact absurd (owned_of_hasPrefix hk) (hapart _ hdst)

/-- They never touch each other's personal knowledge, in no state and with no document. -/
theorem frameKept_of_plain {rt : IngestRuntime} {c : IngestCall} {p q : Principal} {st : KnowledgeState}
    (hp : c.principal = some p) (hscope : c.document.scope = .personal) (hne : p.userId ≠ q.userId)
    (hpc : ':' ∉ p.userId.toList) (hqc : ':' ∉ q.userId.toList) :
    FrameKept rt q st.graph (c.apply rt st).graph :=
  frameKept_of_noClash (noClash_of_plain hp hscope hne hpc hqc)

/-! ### Two users -/

/-- A runtime on texts that are lower-case already. -/
def plainRuntime : IngestRuntime := ⟨⟨id, id⟩, sampleSha⟩

/-- A short personal note, ingested without an extractor. -/
def noteOf (userId sourceId : String) : IngestCall where
  service := { policy := DEFAULT_POLICY, entities_pos := by decide, relations_pos := by decide }
  principal := some { userId := userId }
  document :=
    { text := "hello", title := "note", sourceId := some sourceId, text_nonempty := by decide
      title_nonempty := by decide }

/-- The state after the first note of one user. -/
def afterNote (userId sourceId : String) : KnowledgeState :=
  (noteOf userId sourceId).apply plainRuntime { graph := .empty none }

/-- Alice's note leaves Bob's as it was. -/
theorem frameKept_alice_bob : FrameKept plainRuntime { userId := "bob" } (afterNote "bob" "plans").graph
    ((noteOf "alice" "plans").apply plainRuntime (afterNote "bob" "plans")).graph :=
  (frameKept_iff plainRuntime (noteOf "alice" "plans") { userId := "alice" } { userId := "bob" }
    (afterNote "bob" "plans") rfl rfl (by decide)).mpr
    (noClash_of_plain rfl rfl (by decide) (by decide) (by decide))

/-- The note of user `a:b` with source `c`. -/
def overwrittenNote : Entity :=
  ⟨"personal:a:b:c:0000", "doc", "note [0]", "hello", ["kg:read:user:a:b"], .personal⟩

/-- User `a` with source `b:c` overwrites the note of user `a:b` with source `c`. -/
theorem frameKept_fails : ¬FrameKept plainRuntime { userId := "a:b" } (afterNote "a:b" "c").graph
    ((noteOf "a" "b:c").apply plainRuntime (afterNote "a:b" "c")).graph := by
  intro h
  have hclash := noClash_of_frameKept (c := noteOf "a" "b:c") (p := { userId := "a" }) rfl rfl (by decide) h
  have hplan : planIngest plainRuntime (noteOf "a" "b:c").service (noteOf "a" "b:c").principal
      (noteOf "a" "b:c").document = .ok ({ userId := "a" },
        ⟨.personal, ["kg:read:user:a"], "personal:a", "b:c", ["hello"]⟩) := rfl
  have hwrote : WroteEntity plainRuntime { userId := "a:b" } overwrittenNote :=
    ⟨noteOf "a:b" "c", rfl, rfl, List.mem_singleton.mpr rfl⟩
  exact (hclash _ _ hplan).1 overwrittenNote hwrote rfl 0 (by decide) rfl

end Atlas
