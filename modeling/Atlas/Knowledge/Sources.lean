import Atlas.Knowledge.Chunking
import Atlas.Knowledge.Namespaces

/-! The namespaces of the documents of one owner. Under an owner `o`, a document with source id `s` writes
    `o:s:NNNN` for its windows and `o:s:entity:{kind}:{hash}` for its concepts, and re-extraction drops
    every id that starts with `o:s:entity:`. The ids of two sources never meet (`source_unique`), up to a
    window number of twelve digits, but the source `s:entity` and every source starting with `s:entity:`
    lie under the prefix that `s` drops. `sources_apart_iff` says exactly when an ingest leaves the other
    documents of its owner as they were. -/

namespace Atlas

open Text InMemoryKnowledgeGraph

/-- What `hexdigest` returns is written with hexadecimal digits. -/
def Sha256.Hexadecimal (sha : Sha256) : Prop :=
  ∀ s, ∀ c ∈ (sha.hexdigest s).toList, c.isDigit = true ∨ ('a' ≤ c ∧ c ≤ 'f')

/-! ### Ids of one owner -/

theorem colon_not_mem_pad4 (n : ℕ) : ':' ∉ (pad4 n).toList :=
  fun h => absurd (isDigit_of_mem_pad4 h) (by decide)

theorem colon_not_mem_value (kind : EntityKind) : ':' ∉ kind.value.toList := by
  cases kind <;> decide

theorem colon_not_mem_digest {sha : Sha256} (hsha : sha.Hexadecimal) (n : ℕ) (s : String) :
    ':' ∉ (takeChars n (sha.hexdigest s)).toList := by
  rw [takeChars, String.toList_ofList]
  intro h
  rcases hsha s ':' (List.mem_of_mem_take h) with h | h
  · exact absurd h (by decide)
  · exact absurd h (by decide)

theorem entity_separator (s : String) : s ++ ":entity:" = s ++ ":entity" ++ ":" := by
  rw [String.append_assoc]; rfl

theorem separator_entity (s : String) : s ++ ":entity" = s ++ ":" ++ "entity" := by
  rw [String.append_assoc]; rfl

theorem chunkId_inj {o s t : String} {i j : ℕ} : chunkId o s i = chunkId o t j ↔ s = t ∧ i = j := by
  constructor
  · intro h
    obtain ⟨hsource, hpad⟩ := append_last_separator_inj (c := ':') rfl (colon_not_mem_pad4 i)
      (colon_not_mem_pad4 j) h
    exact ⟨(String.append_right_inj _).mp hsource, pad4_injective hpad⟩
  · rintro ⟨rfl, rfl⟩
    rfl

section hex
variable {rt : IngestRuntime} (hsha : rt.sha256.Hexadecimal)
include hsha

/-- The source, the kind and the hash can be read off a concept's id. -/
theorem source_of_extractedEntityId {o s t name name' : String} {kind kind' : EntityKind}
    (h : extractedEntityId rt o s kind.value name = extractedEntityId rt o t kind'.value name') :
    s = t := by
  obtain ⟨h, -⟩ := append_last_separator_inj (c := ':') rfl (colon_not_mem_digest hsha 12 _)
    (colon_not_mem_digest hsha 12 _) h
  rw [entity_separator, entity_separator] at h
  obtain ⟨h, -⟩ := append_last_separator_inj (c := ':') rfl (colon_not_mem_value kind)
    (colon_not_mem_value kind') h
  exact (String.append_right_inj _).mp ((String.append_left_inj _).mp h)

/-- A window has the id of a concept exactly when its source spells out the concept's source and kind
    and its number the hash. -/
theorem chunkId_eq_extractedEntityId_iff {o s t name : String} {i : ℕ} {kind : EntityKind} :
    chunkId o s i = extractedEntityId rt o t kind.value name ↔
      s = t ++ ":entity:" ++ kind.value ∧
        pad4 i = takeChars 12 (rt.sha256.hexdigest (kind.value ++ "\x00" ++ name)) := by
  have hassoc : extractedEntityId rt o t kind.value name =
      o ++ ":" ++ (t ++ ":entity:" ++ kind.value) ++ ":" ++
        takeChars 12 (rt.sha256.hexdigest (kind.value ++ "\x00" ++ name)) := by
    simp only [extractedEntityId, String.append_assoc]
  rw [hassoc]
  constructor
  · intro h
    obtain ⟨hsource, hpad⟩ := append_last_separator_inj (c := ':') rfl (colon_not_mem_pad4 i)
      (colon_not_mem_digest hsha 12 _) h
    exact ⟨(String.append_right_inj _).mp hsource, hpad⟩
  · rintro ⟨rfl, hpad⟩
    rw [chunkId, hpad]

end hex

/-- So it takes a window number of twelve digits. -/
theorem chunkId_ne_extractedEntityId {rt : IngestRuntime} (hsha : rt.sha256.Hexadecimal)
    {o s t name : String} {i : ℕ} {kind : EntityKind} (hi : i < 10 ^ 11) :
    chunkId o s i ≠ extractedEntityId rt o t kind.value name := by
  intro h
  obtain ⟨-, hpad⟩ := (chunkId_eq_extractedEntityId_iff hsha).mp h
  have hle := length_pad4_le (by decide) hi
  rw [hpad, takeChars, String.length_ofList, List.length_take, String.length_toList,
    rt.sha256.length_hexdigest] at hle
  omega

/-! ### Ids under a prefix -/

/-- The ids of source `t` lie under the extraction prefix of source `s`. -/
def Nested (s t : String) : Prop := hasPrefix (s ++ ":entity:") (t ++ ":") = true

instance (s t : String) : Decidable (Nested s t) := inferInstanceAs (Decidable (_ = true))

theorem nested_iff {s t : String} :
    Nested s t ↔ s ++ ":entity" = t ∨ hasPrefix (s ++ ":entity:") t = true := by
  rw [Nested, entity_separator]
  simpa using hasPrefix_separator_iff (c := ':') (p := s ++ ":entity") (a := t) (x := "") rfl (by decide)

theorem hasPrefix_chunkId {o s t : String} {i : ℕ} :
    hasPrefix (extractionEntityPrefix o s) (chunkId o t i) = true ↔ Nested s t := by
  have hpre : extractionEntityPrefix o s = o ++ ":" ++ (s ++ ":entity:") := by
    simp only [extractionEntityPrefix, String.append_assoc]
  have hid : chunkId o t i = o ++ ":" ++ (t ++ ":" ++ pad4 i) := by
    simp only [chunkId, String.append_assoc]
  rw [hpre, hid, hasPrefix_append_left, nested_iff, entity_separator]
  exact hasPrefix_separator_iff (c := ':') rfl (colon_not_mem_pad4 i)

/-- The concepts of another source lie under the prefix together with its windows. -/
theorem hasPrefix_extractedEntityId_iff {rt : IngestRuntime} (hsha : rt.sha256.Hexadecimal)
    {o s t name : String} {kind : EntityKind} (hne : t ≠ s) :
    hasPrefix (extractionEntityPrefix o s) (extractedEntityId rt o t kind.value name) = true ↔
      Nested s t := by
  have hpre : extractionEntityPrefix o s = o ++ ":" ++ (s ++ ":entity:") := by
    simp only [extractionEntityPrefix, String.append_assoc]
  have hid : extractedEntityId rt o t kind.value name =
      o ++ ":" ++ (t ++ ":entity:" ++ kind.value ++ ":" ++
        takeChars 12 (rt.sha256.hexdigest (kind.value ++ "\x00" ++ name))) := by
    simp only [extractedEntityId, String.append_assoc]
  have hkind : s ++ ":entity" ≠ t ++ ":entity:" ++ kind.value := by
    intro h
    rw [entity_separator, separator_entity s] at h
    obtain ⟨-, hvalue⟩ := append_last_separator_inj (c := ':') rfl (by decide)
      (colon_not_mem_value kind) h
    cases kind <;> exact absurd hvalue (by decide)
  have hsource : s ++ ":entity" ≠ t ++ ":entity" :=
    fun h => hne ((String.append_left_inj _).mp h).symm
  rw [hpre, hid, hasPrefix_append_left, nested_iff, entity_separator s, entity_separator t,
    hasPrefix_separator_iff (c := ':') rfl (colon_not_mem_digest hsha 12 _), ← entity_separator t,
    or_iff_right hkind, entity_separator t,
    hasPrefix_separator_iff (c := ':') rfl (colon_not_mem_value kind), or_iff_right hsource,
    separator_entity t]
  exact hasPrefix_separator_iff (c := ':') rfl (by decide)

/-! ### What is written under a source -/

namespace IngestCall

/-- The call is accepted, under the owner and the source id. -/
def Under (rt : IngestRuntime) (c : IngestCall) (owner source : String) : Prop :=
  ∃ who plan, planIngest rt c.service c.principal c.document = .ok (who, plan) ∧
    plan.ownerSegment = owner ∧ plan.sourceId = source

end IngestCall

/-- A call of the history wrote the entity under the owner and the source. -/
def WroteUnder (rt : IngestRuntime) (calls : List IngestCall) (owner source : String) (e : Entity) : Prop :=
  ∃ c ∈ calls, c.Under rt owner source ∧ e ∈ c.writtenEntities rt

/-- The same for an edge. -/
def WroteEdgeUnder (rt : IngestRuntime) (calls : List IngestCall) (owner source : String) (r : Relation) :
    Prop :=
  ∃ c ∈ calls, c.Under rt owner source ∧ r ∈ c.writtenRelations rt

/-- An entity of a source: a window, which has content, or a concept, which has none. -/
inductive SourceEntity (rt : IngestRuntime) (owner source : String) (e : Entity) : Prop
  | window (index : ℕ) (hid : e.id = chunkId owner source index) (hcontent : e.content ≠ "")
  | concept (kind : EntityKind) (name : String)
      (hid : e.id = extractedEntityId rt owner source kind.value name) (hcontent : e.content = "")

/-- An edge of a source ends at a concept and starts at a concept or a window. -/
structure SourceEdge (rt : IngestRuntime) (owner source : String) (r : Relation) : Prop where
  src : (∃ index, r.srcId = chunkId owner source index) ∨
    ∃ (kind : EntityKind) (name : String), r.srcId = extractedEntityId rt owner source kind.value name
  dst : ∃ (kind : EntityKind) (name : String),
    r.dstId = extractedEntityId rt owner source kind.value name

section written
variable {rt : IngestRuntime} {c : IngestCall} {who : Principal} {plan : IngestPlan}
  {owner s t : String}

theorem sourceEntity_of_chunk (hplan : planIngest rt c.service c.principal c.document = .ok (who, plan))
    {e : Entity} (h : e ∈ chunkEntities c.document plan) :
    SourceEntity rt plan.ownerSegment plan.sourceId e := by
  obtain ⟨-, -, -, hchunks, -⟩ := admit_eq_ok hplan
  rw [chunkEntities, List.mem_mapIdx] at h
  obtain ⟨index, hlt, rfl⟩ := h
  exact .window index rfl (ne_empty_of_mem_chunkText hchunks (List.getElem_mem hlt))

theorem sourceEntity_of_concept {es : List Entity} {rs : List Relation}
    (hx : extractionOf rt c.service c.document plan c.fails = some (es, rs)) {e : Entity} (h : e ∈ es) :
    SourceEntity rt plan.ownerSegment plan.sourceId e := by
  obtain ⟨p, rfl⟩ := concept_of_extractionOf hx h
  exact .concept p.type (normalizeName rt p.name) rfl rfl

theorem sourceEntity_of_written (hplan : planIngest rt c.service c.principal c.document = .ok (who, plan))
    {e : Entity} (h : e ∈ c.writtenEntities rt) : SourceEntity rt plan.ownerSegment plan.sourceId e := by
  rcases (IngestCall.mem_writtenEntities_of_ok hplan).mp h with hmem | ⟨es, rs, hx, hmem⟩
  · exact sourceEntity_of_chunk hplan hmem
  · exact sourceEntity_of_concept hx hmem

theorem sourceEdge_of_extraction {es : List Entity} {rs : List Relation}
    (hx : extractionOf rt c.service c.document plan c.fails = some (es, rs)) {r : Relation} (h : r ∈ rs) :
    SourceEdge rt plan.ownerSegment plan.sourceId r := by
  have hconcept : ∀ k ∈ es.map (·.id), ∃ (kind : EntityKind) (name : String),
      k = extractedEntityId rt plan.ownerSegment plan.sourceId kind.value name := by
    intro k hk
    obtain ⟨e, he, rfl⟩ := List.mem_map.mp hk
    obtain ⟨p, rfl⟩ := concept_of_extractionOf hx he
    exact ⟨p.type, normalizeName rt p.name, rfl⟩
  obtain ⟨hsrc, hdst⟩ := endpoints_of_extractionOf hx h
  refine ⟨hsrc.imp (fun hk => ?_) (hconcept _), hconcept _ hdst⟩
  obtain ⟨index, -, hid⟩ := (map_id_chunkEntities c.document plan).mp hk
  exact ⟨index, hid⟩

theorem sourceEntity_of_under {calls : List IngestCall} {e : Entity}
    (h : WroteUnder rt calls owner s e) : SourceEntity rt owner s e := by
  obtain ⟨c, -, ⟨who, plan, hplan, rfl, rfl⟩, he⟩ := h
  exact sourceEntity_of_written hplan he

theorem sourceEdge_of_under {calls : List IngestCall} {r : Relation}
    (h : WroteEdgeUnder rt calls owner s r) : SourceEdge rt owner s r := by
  obtain ⟨c, -, ⟨who, plan, hplan, rfl, rfl⟩, hr⟩ := h
  obtain ⟨es, rs, hx, hr⟩ := (IngestCall.mem_writtenRelations_of_ok hplan).mp hr
  exact sourceEdge_of_extraction hx hr

end written

section unique
variable {rt : IngestRuntime} (hsha : rt.sha256.Hexadecimal) {owner s t : String}
include hsha

/-- An entity is of one source only: a window by its id, a concept by its id, and a window is no concept
    because it has content. -/
theorem source_unique {e : Entity} (hs : SourceEntity rt owner s e) (ht : SourceEntity rt owner t e) :
    s = t := by
  cases hs with
  | window i hid hcontent =>
    cases ht with
    | window j hid' _ => exact (chunkId_inj.mp (hid.symm.trans hid')).1
    | concept _ _ _ hcontent' => exact absurd hcontent' hcontent
  | concept kind name hid hcontent =>
    cases ht with
    | window _ _ hcontent' => exact absurd hcontent hcontent'
    | concept kind' name' hid' _ => exact source_of_extractedEntityId hsha (hid.symm.trans hid')

theorem source_of_edge {r : Relation} (hs : SourceEdge rt owner s r) (ht : SourceEdge rt owner t r) :
    s = t := by
  obtain ⟨kind, name, hid⟩ := hs.dst
  obtain ⟨kind', name', hid'⟩ := ht.dst
  exact source_of_extractedEntityId hsha (hid.symm.trans hid')

/-- Either all entities of another source lie under the prefix or none. -/
theorem hasPrefix_sourceEntity {e : Entity} (hne : t ≠ s) (ht : SourceEntity rt owner t e) :
    hasPrefix (extractionEntityPrefix owner s) e.id = true ↔ Nested s t := by
  cases ht with
  | window index hid _ => rw [hid]; exact hasPrefix_chunkId
  | concept kind name hid _ => rw [hid]; exact hasPrefix_extractedEntityId_iff hsha hne

/-- And all its edges touch the prefix or none. -/
theorem touches_sourceEdge {r : Relation} (hne : t ≠ s) (ht : SourceEdge rt owner t r) :
    touches (extractionEntityPrefix owner s) r = true ↔ Nested s t := by
  obtain ⟨kind, name, hid⟩ := ht.dst
  rw [touches, Bool.or_eq_true, hid, hasPrefix_extractedEntityId_iff hsha hne]
  refine or_iff_right_of_imp ?_
  rcases ht.src with ⟨index, hsrc⟩ | ⟨kind', name', hsrc⟩
  · rw [hsrc]; exact hasPrefix_chunkId.mp
  · rw [hsrc]; exact (hasPrefix_extractedEntityId_iff hsha hne).mp

end unique

/-! ### When the other documents are kept -/

/-- Everything the history wrote under the source and the graph holds is still there, as it was. -/
structure SourceKept (rt : IngestRuntime) (calls : List IngestCall) (owner t : String)
    (g g' : InMemoryKnowledgeGraph) : Prop where
  entities : ∀ e, WroteUnder rt calls owner t e → g.entities.get? e.id = some e →
    g'.entities.get? e.id = some e
  relations : ∀ r, WroteEdgeUnder rt calls owner t r → r ∈ g.relations → r ∈ g'.relations

/-- Source `t` does not stand in the way of the call: if it is nested in the source of the call and the
    call persists an extraction, the graph holds nothing of it, and no entity it holds of `t` has the id
    of a window of the call. -/
structure NoSourceClash (rt : IngestRuntime) (calls : List IngestCall) (c : IngestCall) (plan : IngestPlan)
    (t : String) (g : InMemoryKnowledgeGraph) : Prop where
  deleted : (extractionOf rt c.service c.document plan c.fails).isSome = true → Nested plan.sourceId t →
    (∀ e, WroteUnder rt calls plan.ownerSegment t e → g.entities.get? e.id ≠ some e) ∧
      ∀ r, WroteEdgeUnder rt calls plan.ownerSegment t r → r ∉ g.relations
  overwritten : ∀ e, WroteUnder rt calls plan.ownerSegment t e → g.entities.get? e.id = some e →
    ∀ index < plan.chunks.length, e.id ≠ chunkId plan.ownerSegment plan.sourceId index

section frame
variable {rt : IngestRuntime} (hsha : rt.sha256.Hexadecimal) {calls : List IngestCall} {c : IngestCall}
  {who : Principal} {plan : IngestPlan} {t : String} {st : KnowledgeState}
  (hplan : planIngest rt c.service c.principal c.document = .ok (who, plan)) (hne : t ≠ plan.sourceId)
include hsha hplan hne

theorem noSourceClash_of_sourceKept
    (h : SourceKept rt calls plan.ownerSegment t st.graph (c.apply rt st).graph) :
    NoSourceClash rt calls c plan t st.graph := by
  -- what the call writes is of its own source, so nothing of `t` can be stored where it wrote
  have hforeign : ∀ e, WroteUnder rt calls plan.ownerSegment t e → e ∉ c.writtenEntities rt := by
    intro e he hmem
    exact hne (source_unique hsha (sourceEntity_of_under he) (sourceEntity_of_written hplan hmem))
  refine ⟨fun hsome hnested => ?_, fun e he hstored index hlt hid => ?_⟩
  · obtain ⟨⟨es, rs⟩, hx⟩ := Option.isSome_iff_exists.mp hsome
    refine ⟨fun e he hstored => ?_, fun r hr hstored => ?_⟩
    · have hpre := (hasPrefix_sourceEntity hsha hne (sourceEntity_of_under he)).mpr hnested
      exact hforeign e he (written_of_touched hplan (Or.inr ⟨hsome, hpre⟩) (h.entities e he hstored))
    · have htouch := (touches_sourceEdge hsha hne (sourceEdge_of_under hr)).mpr hnested
      have hkept := h.relations r hr hstored
      rw [mem_relations_apply hplan, hx] at hkept
      have hnew : r ∈ rs := by simpa only [htouch, if_true] using hkept
      exact hne (source_of_edge hsha (sourceEdge_of_under hr) (sourceEdge_of_extraction hx hnew))
  · have htouched : Touched rt c plan e.id := Or.inl ⟨index, hlt, hid⟩
    exact hforeign e he (written_of_touched hplan htouched (h.entities e he hstored))

theorem sourceKept_of_noSourceClash (h : NoSourceClash rt calls c plan t st.graph) :
    SourceKept rt calls plan.ownerSegment t st.graph (c.apply rt st).graph := by
  refine ⟨fun e he hstored => ?_, fun r hr hstored => ?_⟩
  · rw [get?_apply_of_not_touched hplan, hstored]
    rintro (⟨index, hlt, hid⟩ | ⟨hsome, hpre⟩)
    · exact h.overwritten e he hstored index hlt hid
    · have hnested := (hasPrefix_sourceEntity hsha hne (sourceEntity_of_under he)).mp hpre
      exact (h.deleted hsome hnested).1 e he hstored
  · refine mem_relations_apply_of_mem hplan hstored fun es rs hx htouch => ?_
    have hnested := (touches_sourceEdge hsha hne (sourceEdge_of_under hr)).mp htouch
    exact absurd hstored ((h.deleted (by rw [hx]; rfl) hnested).2 r hr)

end frame

/-- A source that is not nested in the call's never stands in its way, below 10^11 windows. -/
theorem noSourceClash_of_apart {rt : IngestRuntime} (hsha : rt.sha256.Hexadecimal)
    {calls : List IngestCall} {c : IngestCall} {plan : IngestPlan} {t : String} (hne : t ≠ plan.sourceId)
    (hapart : ¬Nested plan.sourceId t) (hlen : plan.chunks.length ≤ 10 ^ 11) (g : InMemoryKnowledgeGraph) :
    NoSourceClash rt calls c plan t g := by
  refine ⟨fun _ hnested => absurd hnested hapart, fun e he _ index hlt hid => ?_⟩
  cases sourceEntity_of_under he with
  | window j hid' _ => exact hne (chunkId_inj.mp (hid'.symm.trans hid)).1
  | concept kind name hid' _ =>
    exact chunkId_ne_extractedEntityId hsha (by omega) (hid.symm.trans hid')

/-- A run of calls under one owner and sources other than `t`, none of which clashes with `t` in the
    state it starts from. -/
def ClashFree (rt : IngestRuntime) (calls : List IngestCall) (owner t : String) :
    List IngestCall → KnowledgeState → Prop
  | [], _ => True
  | c :: later, st =>
    (∃ who plan, planIngest rt c.service c.principal c.document = .ok (who, plan) ∧
      plan.ownerSegment = owner ∧ t ≠ plan.sourceId ∧ NoSourceClash rt calls c plan t st.graph) ∧
    ClashFree rt calls owner t later (c.apply rt st)

/-- Such a run keeps the document from its first state to its last. -/
theorem sourceKept_of_clashFree {rt : IngestRuntime} (hsha : rt.sha256.Hexadecimal)
    {calls later : List IngestCall} {owner t : String} {st : KnowledgeState}
    (h : ClashFree rt calls owner t later st) :
    SourceKept rt calls owner t st.graph (ingestAll rt later st).graph := by
  induction later generalizing st with
  | nil => exact ⟨fun _ _ h => h, fun _ _ h => h⟩
  | cons c later ih =>
    obtain ⟨⟨who, plan, hplan, rfl, hne, hclash⟩, hlater⟩ := h
    have hstep := sourceKept_of_noSourceClash hsha hplan hne hclash
    have hrest := ih hlater
    exact ⟨fun e he hs => hrest.entities e he (hstep.entities e he hs),
      fun r hr hs => hrest.relations r hr (hstep.relations r hr hs)⟩

/-- In every state that ingests reach, an ingest leaves the other documents of its owner as they were if
    and only if none of them stands in its way, and so does a run of ingests. Ids of windows tell their
    source and number, and a window has a concept's id only if its source spells out the concept's source
    and kind and its number, of twelve digits, the hash. -/
theorem sources_apart_iff (rt : IngestRuntime) (hsha : rt.sha256.Hexadecimal) (start : KnowledgeState)
    (calls : List IngestCall) :
    (∀ c who plan, planIngest rt c.service c.principal c.document = .ok (who, plan) →
      ∀ t, t ≠ plan.sourceId →
        (SourceKept rt calls plan.ownerSegment t (ingestAll rt calls start).graph
            (c.apply rt (ingestAll rt calls start)).graph ↔
          NoSourceClash rt calls c plan t (ingestAll rt calls start).graph) ∧
        (¬Nested plan.sourceId t → plan.chunks.length ≤ 10 ^ 11 →
          NoSourceClash rt calls c plan t (ingestAll rt calls start).graph)) ∧
    (∀ owner t later, ClashFree rt calls owner t later (ingestAll rt calls start) →
      SourceKept rt calls owner t (ingestAll rt calls start).graph
        (ingestAll rt later (ingestAll rt calls start)).graph) ∧
    (∀ o s t i j, chunkId o s i = chunkId o t j ↔ s = t ∧ i = j) ∧
    ∀ o s t i (kind : EntityKind) name,
      (chunkId o s i = extractedEntityId rt o t kind.value name ↔
        s = t ++ ":entity:" ++ kind.value ∧
          pad4 i = takeChars 12 (rt.sha256.hexdigest (kind.value ++ "\x00" ++ name))) ∧
      (i < 10 ^ 11 → chunkId o s i ≠ extractedEntityId rt o t kind.value name) := by
  refine ⟨fun c who plan hplan t hne => ⟨⟨?_, ?_⟩, ?_⟩, fun owner t later h => ?_,
    fun o s t i j => chunkId_inj, fun o s t i kind name => ⟨?_, ?_⟩⟩
  · exact noSourceClash_of_sourceKept hsha hplan hne
  · exact sourceKept_of_noSourceClash hsha hplan hne
  · exact fun hapart hlen => noSourceClash_of_apart hsha hne hapart hlen _
  · exact sourceKept_of_clashFree hsha h
  · exact chunkId_eq_extractedEntityId_iff hsha
  · exact chunkId_ne_extractedEntityId hsha

/-! ### Two documents of one user -/

/-- SHA-256 on two concepts. -/
def conceptSha : Sha256 where
  hexdigest s :=
    if s = "person\x00ada" then "f7b5e9049ca2b90e5ccb3683d9ca17daa8f420f309fb53472f6c20bee7513e1b"
    else if s = "person\x00bob" then "bb13826f465725eda3c8262743a0ca60f94dd24ff6e0286e24559a14f9004862"
    else GENESIS_HASH
  length_hexdigest s := by split_ifs <;> decide

theorem conceptSha_hexadecimal : conceptSha.Hexadecimal := by
  have hall : ∀ s, (conceptSha.hexdigest s).toList.all
      (fun c => c.isDigit || (decide ('a' ≤ c) && decide (c ≤ 'f'))) = true := by
    intro s
    rw [conceptSha]
    simp only
    split
    · decide +kernel
    · split
      · decide +kernel
      · decide +kernel
  intro s c hc
  simpa using List.all_eq_true.mp (hall s) c hc

def conceptRuntime : IngestRuntime := ⟨⟨id, id⟩, conceptSha⟩

/-- An extractor that finds one person in every text. -/
def findAda : String → Except PyError ExtractionResult := fun _ => .ok { entities := [⟨"ada", .person⟩] }

/-- The short note, ingested with the extractor. -/
def conceptOf (userId sourceId : String) : IngestCall :=
  { noteOf userId sourceId with
    service := { (noteOf userId sourceId).service with extractor := some findAda } }

/-- The state after a first note of user `u`. -/
def afterFirst (sourceId : String) : KnowledgeState :=
  ingestAll conceptRuntime [noteOf "u" sourceId] { graph := .empty none }

/-- Ingesting `a` with an extractor keeps the note `b`. -/
theorem sources_apart_a_b :
    SourceKept conceptRuntime [noteOf "u" "b"] "personal:u" "b" (afterFirst "b").graph
      ((conceptOf "u" "a").apply conceptRuntime (afterFirst "b")).graph := by
  have h := (sources_apart_iff conceptRuntime conceptSha_hexadecimal { graph := .empty none }
    [noteOf "u" "b"]).1 (conceptOf "u" "a") { userId := "u" }
    ⟨.personal, ["kg:read:user:u"], "personal:u", "a", ["hello"]⟩ rfl "b" (by decide)
  exact h.1.mpr (h.2 (by decide) (by decide))

/-- Ingesting `a` with an extractor deletes the note `a:entity`. -/
theorem nested_source_deleted :
    ¬SourceKept conceptRuntime [noteOf "u" "a:entity"] "personal:u" "a:entity" (afterFirst "a:entity").graph
      ((conceptOf "u" "a").apply conceptRuntime (afterFirst "a:entity")).graph := by
  intro h
  have hkept := h.entities
    ⟨"personal:u:a:entity:0000", "doc", "note [0]", "hello", ["kg:read:user:u"], .personal⟩
    ⟨noteOf "u" "a:entity", List.mem_singleton.mpr rfl, ⟨_, _, rfl, rfl, rfl⟩, List.mem_singleton.mpr rfl⟩ rfl
  exact absurd hkept (by decide)

end Atlas
