import Atlas.Governance.Chain
import Atlas.Knowledge.MemoryStore

/-! The write path of the knowledge graph. The server resolves scope and acl from the principal and the
    request, splits the text into windows, upserts one entity per window under a deterministic id, and
    then layers the extractor's typed entities and edges on top; a failing extractor or store degrades
    to the windows only. Ids are `{owner}:{source}:{index}` and `{owner}:{source}:entity:{kind}:{hash}`. -/

namespace Atlas

open Text InMemoryKnowledgeGraph

/-- The kinds of concept entities an extractor may emit. -/
inductive EntityKind where | person | project | org | concept
  deriving DecidableEq, Repr

def EntityKind.value : EntityKind → String
  | person => "person"
  | project => "project"
  | org => "org"
  | concept => "concept"

structure ExtractedEntity where
  name : String
  type : EntityKind
  deriving DecidableEq, Repr

structure ExtractedRelation where
  srcName : String
  srcType : EntityKind
  dstName : String
  dstType : EntityKind
  type : String
  deriving DecidableEq, Repr

structure ExtractionResult where
  entities : List ExtractedEntity := []
  relations : List ExtractedRelation := []

/-- A document submitted for ingestion. -/
structure IngestDocument where
  text : String
  title : String
  type : String := "doc"
  scope : Scope := .personal
  sourceId : Option String := none
  orgAcl : Option (List String) := none
  text_nonempty : text ≠ ""
  title_nonempty : title ≠ ""

structure IngestionResult where
  entityIds : List String
  chunkCount : ℕ
  scope : Scope
  sourceId : String
  extractedEntityCount : Option ℕ := none
  relationCount : Option ℕ := none

def DEFAULT_CHUNK_SIZE : ℤ := 2000
def DEFAULT_CHUNK_OVERLAP : ℤ := 200

/-- The permission required to write organization-scoped knowledge. -/
def ORG_WRITE_PERMISSION : String := "kg:write:org"

def DEFAULT_ORG_ACL : List String := ["kg:read:org"]

def MENTIONS_RELATION : String := "mentions"

/-- `IngestionDenied(message)`. -/
def ingestionDenied (message : String) : PyError := ⟨"IngestionDenied", message⟩

/-- What the language's runtime supplies to the write path. -/
structure IngestRuntime extends TextRuntime where
  sha256 : Sha256

/-- The configured writer. Without an extractor there is no enrichment; an extractor call may raise. -/
structure IngestionService where
  policy : PolicyStore
  chunkSize : ℤ := DEFAULT_CHUNK_SIZE
  chunkOverlap : ℤ := DEFAULT_CHUNK_OVERLAP
  extractor : Option (String → Except PyError ExtractionResult) := none
  maxExtractedEntities : ℕ := 64
  maxExtractedRelations : ℕ := 128
  entities_pos : 0 < maxExtractedEntities
  relations_pos : 0 < maxExtractedRelations

/-! ### Chunking -/

/-- The loop of `chunk_text` from a start index; `fuel` bounds the number of windows. -/
def chunkFrom (normalized : List Char) (chunkSize step : ℕ) : ℕ → ℕ → List String
  | 0, _ => []
  | fuel + 1, start =>
    if start < normalized.length then
      String.ofList ((normalized.drop start).take chunkSize) ::
        if normalized.length ≤ start + chunkSize then []
        else chunkFrom normalized chunkSize step fuel (start + step)
    else []

/-- Split text into fixed-size windows with `overlap` carry-over. -/
def chunkText (text : String) (chunkSize overlap : ℤ) : Except PyError (List String) :=
  if chunkSize ≤ 0 then .error ⟨"ValueError", "chunk_size must be positive"⟩
  else if ¬(0 ≤ overlap ∧ overlap < chunkSize) then
    .error ⟨"ValueError", "overlap must be in [0, chunk_size)"⟩
  else
    let normalized := strip text
    if normalized = "" then .ok []
    else if normalized.length ≤ chunkSize.toNat then .ok [normalized]
    else
      -- a window starts at least one character after the one before it
      .ok (chunkFrom normalized.toList chunkSize.toNat (chunkSize - overlap).toNat normalized.length 0)

/-! ### Ids and access -/

/-- A stable source id: the caller's value, else a hash of the title. -/
def sourceIdFor (rt : IngestRuntime) (document : IngestDocument) : String :=
  match document.sourceId with
  | some id => if id = "" then takeChars 16 (rt.sha256.hexdigest document.title) else id
  | none => takeChars 16 (rt.sha256.hexdigest document.title)

/-- `owner_segment` of a personal ingest. -/
def personalSegment (userId : String) : String := "personal:" ++ userId

/-- `(scope, acl, owner_segment)`, resolved on the server. -/
def resolveScopeAcl (policy : PolicyStore) (principal : Principal) (document : IngestDocument) :
    Except PyError (Scope × List String × String) :=
  match document.scope with
  | .personal =>
    if document.orgAcl.isSome then .error (ingestionDenied "org_acl is not valid for personal scope")
    else .ok (.personal, [identityAcl principal.userId], personalSegment principal.userId)
  | .org =>
    if !policy.can (some principal) (some ORG_WRITE_PERMISSION) then
      .error (ingestionDenied "principal is not permitted to write organization knowledge")
    else
      match document.orgAcl with
      | some (entry :: acl) => .ok (.org, entry :: acl, "org")
      | _ => .ok (.org, DEFAULT_ORG_ACL, "org")

def chunkId (ownerSegment sourceId : String) (index : ℕ) : String :=
  ownerSegment ++ ":" ++ sourceId ++ ":" ++ pad4 index

/-- Case- and space-fold a name for the dedup keys. -/
def normalizeName (rt : IngestRuntime) (name : String) : String := rt.casefold (" ".intercalate (split name))

def extractedEntityId (rt : IngestRuntime) (ownerSegment sourceId kind normalizedName : String) : String :=
  ownerSegment ++ ":" ++ sourceId ++ ":entity:" ++ kind ++ ":" ++
    takeChars 12 (rt.sha256.hexdigest (kind ++ "\x00" ++ normalizedName))

/-! ### The ingest pipeline -/

/-- What an accepted ingest is about to write. -/
structure IngestPlan where
  scope : Scope
  acl : List String
  ownerSegment : String
  sourceId : String
  chunks : List String

/-- The checks of `ingest`, all of them before the first write. -/
def planIngest (rt : IngestRuntime) (service : IngestionService) (principal : Option Principal)
    (document : IngestDocument) : Except PyError (Principal × IngestPlan) :=
  match principal with
  | none => .error (ingestionDenied "authentication required to ingest knowledge")
  | some principal =>
    if principal = Principal.anonymous then
      .error (ingestionDenied "authentication required to ingest knowledge")
    else do
      let (scope, acl, ownerSegment) ← resolveScopeAcl service.policy principal document
      let chunks ← chunkText document.text service.chunkSize service.chunkOverlap
      if chunks.isEmpty then .error (ingestionDenied "document text is empty")
      else return (principal, ⟨scope, acl, ownerSegment, sourceIdFor rt document, chunks⟩)

/-- One entity per window. -/
def chunkEntities (document : IngestDocument) (plan : IngestPlan) : List Entity :=
  plan.chunks.mapIdx (fun index chunk => {
    id := chunkId plan.ownerSegment plan.sourceId index
    type := document.type
    name := document.title ++ " [" ++ toString index ++ "]"
    content := chunk
    acl := plan.acl
    scope := plan.scope })

/-- The loop over proposed entities: `acc` pairs each key kept so far with its entity. -/
def collectEntities (rt : IngestRuntime) (plan : IngestPlan) (cap : ℕ) :
    List ExtractedEntity → List ((EntityKind × String) × Entity) → List ((EntityKind × String) × Entity)
  | [], acc => acc
  | proposed :: rest, acc =>
    if cap ≤ acc.length then acc
    else
      let key := (proposed.type, normalizeName rt proposed.name)
      if acc.any (·.1 == key) then collectEntities rt plan cap rest acc
      else collectEntities rt plan cap rest (acc ++ [(key, {
        id := extractedEntityId rt plan.ownerSegment plan.sourceId proposed.type.value key.2
        type := proposed.type.value
        name := proposed.name
        content := ""
        acl := plan.acl
        scope := plan.scope })])

/-- Add an edge unless it is there already. -/
def collectEdge (collected : List Relation) (edge : Relation) : List Relation :=
  if edge ∈ collected then collected else collected ++ [edge]

/-- The loop over proposed relations; an edge needs both endpoints among the kept entities. -/
def collectProposed (rt : IngestRuntime) (idByKey : (EntityKind × String) → Option String) (cap : ℕ) :
    List ExtractedRelation → List Relation → List Relation
  | [], collected => collected
  | relation :: rest, collected =>
    if cap ≤ collected.length then collected
    else
      match idByKey (relation.srcType, normalizeName rt relation.srcName),
          idByKey (relation.dstType, normalizeName rt relation.dstName) with
      | some srcId, some dstId =>
        collectProposed rt idByKey cap rest (collectEdge collected ⟨srcId, dstId, relation.type⟩)
      | _, _ => collectProposed rt idByKey cap rest collected

/-- The loop that anchors each kept entity to the first chunk. -/
def collectMentions (anchor : String) (cap : ℕ) : List String → List Relation → List Relation
  | [], collected => collected
  | entityId :: rest, collected =>
    if cap ≤ collected.length then collected
    else collectMentions anchor cap rest (collectEdge collected ⟨anchor, entityId, MENTIONS_RELATION⟩)

/-- `_collect_relations`. -/
def collectRelations (rt : IngestRuntime) (cap : ℕ) (relations : List ExtractedRelation)
    (kept : List ((EntityKind × String) × Entity)) (chunkEntityIds : List String) :
    Except PyError (List Relation) :=
  let collected :=
    collectProposed rt (fun key => (kept.lookup key).map (·.id)) cap relations []
  match chunkEntityIds with
  | [] => .error ⟨"IndexError", "list index out of range"⟩
  | anchor :: _ => .ok (collectMentions anchor cap (kept.map (·.2.id)) collected)

/-- `_persist_extraction`: the ids written and the number of edges, and the graph. -/
def persistResult (rt : IngestRuntime) (service : IngestionService) (plan : IngestPlan)
    (fails : ℕ → Option PyError) (chunkEntityIds : List String) (result : ExtractionResult)
    (g : InMemoryKnowledgeGraph) : Except PyError (List String × ℕ) × InMemoryKnowledgeGraph :=
  let kept := collectEntities rt plan service.maxExtractedEntities result.entities []
  match collectRelations rt service.maxExtractedRelations result.relations kept chunkEntityIds with
  | .error e => (.error e, g)
  | .ok relations =>
    match g.persistExtraction fails plan.ownerSegment plan.sourceId (kept.map (·.2)) relations with
    | (.error e, g) => (.error e, g)
    | (.ok (), g) => (.ok (kept.map (·.2.id), relations.length), g)

/-- `_enrich_with_extraction`: any failure degrades to no ids and no edges. -/
def enrichWithExtraction (rt : IngestRuntime) (service : IngestionService) (document : IngestDocument)
    (plan : IngestPlan) (fails : ℕ → Option PyError) (chunkEntityIds : List String)
    (g : InMemoryKnowledgeGraph) : (List String × ℕ) × InMemoryKnowledgeGraph :=
  match service.extractor with
  | none => (([], 0), g)
  | some extract =>
    match extract document.text with
    | .error _ => (([], 0), g)
    | .ok result =>
      match persistResult rt service plan fails chunkEntityIds result g with
      | (.error _, g) => (([], 0), g)
      | (.ok counts, g) => (counts, g)

/-- The graph and the audit log, where there is one. -/
structure KnowledgeState where
  graph : InMemoryKnowledgeGraph
  audit : Option AuditLog := none

/-- `IngestionService.ingest`. `fails i` is the error the `i`-th write of `persist_extraction` raises,
    if any. -/
def ingest (rt : IngestRuntime) (service : IngestionService) (fails : ℕ → Option PyError)
    (principal : Option Principal) (document : IngestDocument) (st : KnowledgeState) :
    Except PyError IngestionResult × KnowledgeState :=
  match planIngest rt service principal document with
  | .error e => (.error e, st)
  | .ok (principal, plan) =>
    let entities := chunkEntities document plan
    let entityIds := entities.map (·.id)
    let ((extractedIds, relationCount), graph) :=
      enrichWithExtraction rt service document plan fails entityIds (st.graph.upsertAll entities)
    let extractedCount := if service.extractor.isNone then none else some extractedIds.length
    let relationCountOut := if service.extractor.isNone then none else some relationCount
    (.ok {
      entityIds := entityIds
      chunkCount := entityIds.length
      scope := plan.scope
      sourceId := plan.sourceId
      extractedEntityCount := extractedCount
      relationCount := relationCountOut },
    { graph := graph
      audit := st.audit.map (fun log => log.ingested plan.sourceId plan.scope.value entityIds.length
        principal.userId extractedCount relationCountOut) })

/-! ### What an ingest writes -/

/-- The entities and edges the enrichment persists; none when it is off or degrades. -/
def extractionOf (rt : IngestRuntime) (service : IngestionService) (document : IngestDocument)
    (plan : IngestPlan) (fails : ℕ → Option PyError) : Option (List Entity × List Relation) :=
  match service.extractor with
  | none => none
  | some extract =>
    match extract document.text with
    | .error _ => none
    | .ok result =>
      let kept := collectEntities rt plan service.maxExtractedEntities result.entities []
      match collectRelations rt service.maxExtractedRelations result.relations kept
          ((chunkEntities document plan).map (·.id)) with
      | .error _ => none
      | .ok relations =>
        if quiet fails ((kept.map (·.2)).length + relations.length) then
          some (kept.map (·.2), relations)
        else none

/-- The graph after the enrichment. -/
def withExtraction (plan : IngestPlan) (g : InMemoryKnowledgeGraph) :
    Option (List Entity × List Relation) → InMemoryKnowledgeGraph
  | none => g
  | some (es, rs) =>
    g.replaceExtraction (extractionEntityPrefix plan.ownerSegment plan.sourceId) es rs

/-- The ids and the number of edges the enrichment reports. -/
def extractionCounts : Option (List Entity × List Relation) → List String × ℕ
  | none => ([], 0)
  | some (es, rs) => (es.map (·.id), rs.length)

theorem enrichWithExtraction_eq (rt : IngestRuntime) (service : IngestionService)
    (document : IngestDocument) (plan : IngestPlan) (fails : ℕ → Option PyError)
    (g : InMemoryKnowledgeGraph) :
    enrichWithExtraction rt service document plan fails ((chunkEntities document plan).map (·.id)) g =
      (extractionCounts (extractionOf rt service document plan fails),
        withExtraction plan g (extractionOf rt service document plan fails)) := by
  rw [enrichWithExtraction, extractionOf]
  cases hx : service.extractor with
  | none => rfl
  | some extract =>
    cases hr : extract document.text with
    | error e => simp only [hr]; rfl
    | ok result =>
      simp only [hr, persistResult]
      cases hc : collectRelations rt service.maxExtractedRelations result.relations
          (collectEntities rt plan service.maxExtractedEntities result.entities [])
          ((chunkEntities document plan).map (·.id)) with
      | error e => rfl
      | ok relations =>
        simp only
        cases hq : quiet fails (((collectEntities rt plan service.maxExtractedEntities result.entities
            []).map (·.2)).length + relations.length) with
        | true =>
          rw [persistExtraction_of_quiet hq]
          simp only [if_true, extractionCounts, List.map_map, withExtraction]
          rfl
        | false =>
          obtain ⟨e, he⟩ := persistExtraction_of_not_quiet g plan.ownerSegment plan.sourceId hq
          rw [he]; rfl

/-- What an accepted ingest answers, given what its enrichment persists. -/
def ingestionResult (service : IngestionService) (document : IngestDocument) (plan : IngestPlan)
    (extraction : Option (List Entity × List Relation)) : IngestionResult where
  entityIds := (chunkEntities document plan).map (·.id)
  chunkCount := plan.chunks.length
  scope := plan.scope
  sourceId := plan.sourceId
  extractedEntityCount :=
    if service.extractor.isNone then none else some (extractionCounts extraction).1.length
  relationCount := if service.extractor.isNone then none else some (extractionCounts extraction).2

/-- A refused ingest changes nothing. -/
theorem ingest_of_error {rt : IngestRuntime} {service : IngestionService} {fails : ℕ → Option PyError}
    {principal : Option Principal} {document : IngestDocument} {e : PyError} (st : KnowledgeState)
    (h : planIngest rt service principal document = .error e) :
    ingest rt service fails principal document st = (.error e, st) := by
  rw [ingest, h]

/-- An accepted ingest upserts its windows, replaces the extraction of its source, and records the counts
    it answers. -/
theorem ingest_of_ok {rt : IngestRuntime} {service : IngestionService} {fails : ℕ → Option PyError}
    {principal : Option Principal} {document : IngestDocument} {who : Principal} {plan : IngestPlan}
    (st : KnowledgeState) (h : planIngest rt service principal document = .ok (who, plan)) :
    ingest rt service fails principal document st =
      let extraction := extractionOf rt service document plan fails
      let result := ingestionResult service document plan extraction
      (.ok result,
        { graph := withExtraction plan (st.graph.upsertAll (chunkEntities document plan)) extraction
          audit := st.audit.map (fun log => log.ingested plan.sourceId plan.scope.value result.chunkCount
            who.userId result.extractedEntityCount result.relationCount) }) := by
  have hlen : ((chunkEntities document plan).map (·.id)).length = plan.chunks.length := by
    rw [List.length_map, chunkEntities, List.length_mapIdx]
  simp only [ingest, h, enrichWithExtraction_eq, ingestionResult, hlen]

theorem ingest_graph {rt : IngestRuntime} {service : IngestionService} {fails : ℕ → Option PyError}
    {principal : Option Principal} {document : IngestDocument} {who : Principal} {plan : IngestPlan}
    (st : KnowledgeState) (h : planIngest rt service principal document = .ok (who, plan)) :
    (ingest rt service fails principal document st).2.graph =
      withExtraction plan (st.graph.upsertAll (chunkEntities document plan))
        (extractionOf rt service document plan fails) := by
  rw [ingest_of_ok st h]

/-- What the checks establish: the principal is authenticated, scope, acl and owner are the server's,
    and there is at least one window. -/
theorem admit_eq_ok {rt : IngestRuntime} {service : IngestionService} {principal : Option Principal}
    {document : IngestDocument} {who : Principal} {plan : IngestPlan}
    (h : planIngest rt service principal document = .ok (who, plan)) :
    principal = some who ∧ who ≠ Principal.anonymous ∧
      resolveScopeAcl service.policy who document = .ok (plan.scope, plan.acl, plan.ownerSegment) ∧
      chunkText document.text service.chunkSize service.chunkOverlap = .ok plan.chunks ∧
      plan.chunks ≠ [] ∧ plan.sourceId = sourceIdFor rt document := by
  cases principal with
  | none => cases h
  | some p =>
    simp only [planIngest] at h
    split at h
    next => cases h
    next hanon =>
      simp only [Fallible.bind_eq_ok] at h
      obtain ⟨⟨scope, acl, owner⟩, hres, chunks, hchunks, h⟩ := h
      split at h
      next => cases h
      next hne =>
        simp only [Fallible.pure_eq_ok, Prod.mk.injEq] at h
        obtain ⟨rfl, rfl⟩ := h
        exact ⟨rfl, hanon, hres, hchunks, fun hnil => hne (List.isEmpty_iff.mpr hnil), rfl⟩

/-- The resolved acl is never empty, so nothing ingested is world-readable. -/
theorem acl_ne_nil_of_resolveScopeAcl {policy : PolicyStore} {principal : Principal}
    {document : IngestDocument} {scope : Scope} {acl : List String} {owner : String}
    (h : resolveScopeAcl policy principal document = .ok (scope, acl, owner)) : acl ≠ [] := by
  rw [resolveScopeAcl] at h
  split at h
  next =>
    split at h
    · cases h
    · cases h; exact List.cons_ne_nil _ _
  next =>
    split at h
    · cases h
    · split at h <;> cases h <;> exact List.cons_ne_nil _ _

theorem resolveScopeAcl_personal {policy : PolicyStore} {principal : Principal}
    {document : IngestDocument} {scope : Scope} {acl : List String} {owner : String}
    (hscope : document.scope = .personal)
    (h : resolveScopeAcl policy principal document = .ok (scope, acl, owner)) :
    scope = .personal ∧ acl = [identityAcl principal.userId] ∧
      owner = personalSegment principal.userId := by
  rw [resolveScopeAcl, hscope] at h
  simp only at h
  split at h
  · cases h
  · cases h; exact ⟨rfl, rfl, rfl⟩

/-! ### The entities of a plan -/

/-- Every window is stored under its own id with the plan's acl and scope. -/
theorem mem_chunkEntities {document : IngestDocument} {plan : IngestPlan} {e : Entity}
    (h : e ∈ chunkEntities document plan) : e.acl = plan.acl ∧ e.scope = plan.scope ∧
      ∃ index < plan.chunks.length, e.id = chunkId plan.ownerSegment plan.sourceId index := by
  rw [chunkEntities, List.mem_mapIdx] at h
  obtain ⟨index, hlt, rfl⟩ := h
  exact ⟨rfl, rfl, index, hlt, rfl⟩

theorem hasPrefix_extractedEntityId (rt : IngestRuntime) (owner source kind name : String) :
    hasPrefix (extractionEntityPrefix owner source) (extractedEntityId rt owner source kind name) =
      true := by
  refine hasPrefix_iff.mpr
    ⟨kind ++ ":" ++ takeChars 12 (rt.sha256.hexdigest (kind ++ "\x00" ++ name)), ?_⟩
  simp only [extractedEntityId, extractionEntityPrefix, String.append_assoc]

/-- The entity `_persist_extraction` makes of a proposal. -/
def conceptEntity (rt : IngestRuntime) (plan : IngestPlan) (proposed : ExtractedEntity) : Entity where
  id := extractedEntityId rt plan.ownerSegment plan.sourceId proposed.type.value
    (normalizeName rt proposed.name)
  type := proposed.type.value
  name := proposed.name
  content := ""
  acl := plan.acl
  scope := plan.scope

/-- Every kept entity is made of a proposal. -/
theorem mem_collectEntities {rt : IngestRuntime} {plan : IngestPlan} {cap : ℕ} {e : Entity}
    {proposed : List ExtractedEntity} {acc : List ((EntityKind × String) × Entity)}
    (h : e ∈ (collectEntities rt plan cap proposed acc).map (·.2)) :
    e ∈ acc.map (·.2) ∨ ∃ p ∈ proposed, e = conceptEntity rt plan p := by
  induction proposed generalizing acc with
  | nil => exact Or.inl h
  | cons p rest ih =>
    have hrest : (∃ q ∈ rest, e = conceptEntity rt plan q) →
        ∃ q ∈ p :: rest, e = conceptEntity rt plan q :=
      fun ⟨q, hq, he⟩ => ⟨q, List.mem_cons_of_mem _ hq, he⟩
    simp only [collectEntities] at h
    split at h
    next => exact Or.inl h
    next =>
      split at h
      next => exact (ih h).imp id hrest
      next =>
        rcases ih h with he | he
        · rw [List.map_append, List.mem_append, List.map_singleton, List.mem_singleton] at he
          exact he.imp id (fun he => ⟨p, List.mem_cons_self, he⟩)
        · exact Or.inr (hrest he)

/-- What a persisted extraction consists of. -/
theorem extractionOf_eq_some {rt : IngestRuntime} {service : IngestionService}
    {document : IngestDocument} {plan : IngestPlan} {fails : ℕ → Option PyError} {es : List Entity}
    {rs : List Relation} (h : extractionOf rt service document plan fails = some (es, rs)) :
    ∃ extract result, service.extractor = some extract ∧ extract document.text = .ok result ∧
      es = (collectEntities rt plan service.maxExtractedEntities result.entities []).map (·.2) ∧
      collectRelations rt service.maxExtractedRelations result.relations
        (collectEntities rt plan service.maxExtractedEntities result.entities [])
        ((chunkEntities document plan).map (·.id)) = .ok rs ∧
      quiet fails (es.length + rs.length) = true := by
  rw [extractionOf] at h
  cases hx : service.extractor with
  | none => rw [hx] at h; cases h
  | some extract =>
    cases hr : extract document.text with
    | error e => simp only [hx, hr] at h; cases h
    | ok result =>
      simp only [hx, hr] at h
      split at h
      next => cases h
      next relations hcollect =>
        split at h
        next hq =>
          simp only [Option.some.injEq, Prod.mk.injEq] at h
          obtain ⟨rfl, rfl⟩ := h
          exact ⟨extract, result, rfl, hr, rfl, hcollect, hq⟩
        next => cases h

/-- The extracted entities are made of the proposals. -/
theorem concept_of_extractionOf {rt : IngestRuntime} {service : IngestionService}
    {document : IngestDocument} {plan : IngestPlan} {fails : ℕ → Option PyError} {es : List Entity}
    {rs : List Relation} (h : extractionOf rt service document plan fails = some (es, rs)) {e : Entity}
    (he : e ∈ es) : ∃ p, e = conceptEntity rt plan p := by
  obtain ⟨extract, result, -, -, rfl, -⟩ := extractionOf_eq_some h
  rcases mem_collectEntities he with he | ⟨p, -, he⟩
  · exact absurd he List.not_mem_nil
  · exact ⟨p, he⟩

/-- They carry the plan's acl and scope and live under its extraction prefix. -/
theorem mem_extractionOf {rt : IngestRuntime} {service : IngestionService} {document : IngestDocument}
    {plan : IngestPlan} {fails : ℕ → Option PyError} {es : List Entity} {rs : List Relation}
    (h : extractionOf rt service document plan fails = some (es, rs)) {e : Entity} (he : e ∈ es) :
    e.acl = plan.acl ∧ e.scope = plan.scope ∧
      hasPrefix (extractionEntityPrefix plan.ownerSegment plan.sourceId) e.id = true := by
  obtain ⟨p, rfl⟩ := concept_of_extractionOf h he
  exact ⟨rfl, rfl, hasPrefix_extractedEntityId rt _ _ _ _⟩

/-! ### The edges of a plan -/

theorem mem_collectEdge {collected : List Relation} {edge r : Relation} :
    r ∈ collectEdge collected edge ↔ r ∈ collected ∨ r = edge := by
  rw [collectEdge]
  split
  next h => exact ⟨Or.inl, fun hr => hr.elim id (fun he => he ▸ h)⟩
  next => rw [List.mem_append, List.mem_singleton]

/-- A proposed edge is kept only between two kept entities. -/
theorem mem_collectProposed {rt : IngestRuntime} {idByKey : (EntityKind × String) → Option String}
    {cap : ℕ} {proposed : List ExtractedRelation} {collected : List Relation} {r : Relation}
    (h : r ∈ collectProposed rt idByKey cap proposed collected) :
    r ∈ collected ∨ ∃ k k', idByKey k = some r.srcId ∧ idByKey k' = some r.dstId := by
  induction proposed generalizing collected with
  | nil => exact Or.inl h
  | cons relation rest ih =>
    rw [collectProposed] at h
    split at h
    next => exact Or.inl h
    next =>
      split at h
      next srcId dstId hsrc hdst =>
        rcases ih h with h | h
        · refine (mem_collectEdge.mp h).imp id ?_
          rintro rfl
          exact ⟨_, _, hsrc, hdst⟩
        · exact Or.inr h
      next => exact ih h

theorem mem_collectMentions {anchor : String} {cap : ℕ} {ids : List String} {collected : List Relation}
    {r : Relation} (h : r ∈ collectMentions anchor cap ids collected) :
    r ∈ collected ∨ r.srcId = anchor ∧ r.dstId ∈ ids := by
  induction ids generalizing collected with
  | nil => exact Or.inl h
  | cons entityId rest ih =>
    rw [collectMentions] at h
    split at h
    next => exact Or.inl h
    next =>
      rcases ih h with h | ⟨hsrc, hdst⟩
      · refine (mem_collectEdge.mp h).imp id ?_
        rintro rfl
        exact ⟨rfl, List.mem_cons_self⟩
      · exact Or.inr ⟨hsrc, List.mem_cons_of_mem _ hdst⟩

theorem mem_of_lookup {kept : List ((EntityKind × String) × Entity)} {key : EntityKind × String}
    {id : String} (h : (kept.lookup key).map (·.id) = some id) : id ∈ kept.map (·.2.id) := by
  obtain ⟨e, he, rfl⟩ := Option.map_eq_some_iff.mp h
  obtain ⟨l₁, l₂, rfl, -⟩ := List.lookup_eq_some_iff.mp he
  exact List.mem_map.mpr ⟨(key, e), List.mem_append_right _ List.mem_cons_self, rfl⟩

/-- Every collected edge starts at a window or a kept entity and ends at a kept entity. -/
theorem endpoints_of_collectRelations {rt : IngestRuntime} {cap : ℕ} {relations : List ExtractedRelation}
    {kept : List ((EntityKind × String) × Entity)} {chunkEntityIds : List String} {rs : List Relation}
    {r : Relation} (h : collectRelations rt cap relations kept chunkEntityIds = .ok rs) (hr : r ∈ rs) :
    (r.srcId ∈ chunkEntityIds ∨ r.srcId ∈ kept.map (·.2.id)) ∧ r.dstId ∈ kept.map (·.2.id) := by
  cases chunkEntityIds with
  | nil => cases h
  | cons anchor rest =>
    simp only [collectRelations, Except.ok.injEq] at h
    subst h
    rcases mem_collectMentions hr with hr | ⟨hsrc, hdst⟩
    · rcases mem_collectProposed hr with hr | ⟨k, k', hsrc, hdst⟩
      · exact absurd hr List.not_mem_nil
      · exact ⟨Or.inr (mem_of_lookup hsrc), mem_of_lookup hdst⟩
    · exact ⟨Or.inl (hsrc ▸ List.mem_cons_self), hdst⟩

/-- The edges a persisted extraction adds run between the ids of the same plan. -/
theorem endpoints_of_extractionOf {rt : IngestRuntime} {service : IngestionService}
    {document : IngestDocument} {plan : IngestPlan} {fails : ℕ → Option PyError} {es : List Entity}
    {rs : List Relation} (h : extractionOf rt service document plan fails = some (es, rs))
    {r : Relation} (hr : r ∈ rs) :
    (r.srcId ∈ (chunkEntities document plan).map (·.id) ∨ r.srcId ∈ es.map (·.id)) ∧
      r.dstId ∈ es.map (·.id) := by
  obtain ⟨extract, result, -, -, rfl, hcollect, -⟩ := extractionOf_eq_some h
  rw [List.map_map]
  exact endpoints_of_collectRelations hcollect hr

end Atlas
