import Atlas.Knowledge.Reingest
import Atlas.Lib.Heap

/-! How a failed enrichment is undone. The store's two containers are objects that the graph refers to:
    `persist_extraction` copies both, rebinds the graph to filtered containers, writes into these in
    place, and on an exception binds the graph to the copies again. `represents_persistExtraction` says
    that this is the all-or-nothing replacement, at whatever write the exception strikes, because no write
    goes through a reference to a copy. On top of it the whole of `ingest`, with an extractor that has a
    state of its own, so that calling it shows. -/

namespace Atlas

open Text InMemoryKnowledgeGraph

/-- `InMemoryKnowledgeGraph` as its two attributes: references to a dict and to a list. -/
structure HeapGraph where
  dicts : Heap (Dict String Entity)
  lists : Heap (List Relation)
  entities : ℕ
  relations : ℕ

namespace HeapGraph

/-- `self._entities`. -/
def entityDict (h : HeapGraph) : Dict String Entity := h.dicts.read h.entities

/-- `self._relations`. -/
def relationList (h : HeapGraph) : List Relation := h.lists.read h.relations

def upsertEntity (h : HeapGraph) (entity : Entity) : HeapGraph :=
  { h with dicts := h.dicts.write h.entities (h.entityDict.set entity.id entity) }

def addRelation (h : HeapGraph) (relation : Relation) : HeapGraph :=
  if relation ∈ h.relationList then h
  else { h with lists := h.lists.write h.relations (h.relationList ++ [relation]) }

/-- A loop of writes in place: the error of the first that raises, and what the writes before it left. -/
def writeLoop {α : Type} (fails : ℕ → Option PyError) (write : HeapGraph → α → HeapGraph) :
    ℕ → List α → HeapGraph → Option PyError × HeapGraph
  | _, [], h => (none, h)
  | i, x :: xs, h =>
    match fails i with
    | some e => (some e, h)
    | none => writeLoop fails write (i + 1) xs (write h x)

/-- The snapshots, and the graph rebound to new containers without the prefix. -/
def rebindWithoutPrefix (h : HeapGraph) (pre : String) : (ℕ × ℕ) × HeapGraph :=
  let (entitiesSnapshot, dicts) := h.dicts.alloc h.entityDict
  let (relationsSnapshot, lists) := h.lists.alloc h.relationList
  let (entities, dicts) := dicts.alloc (h.entityDict.filterKeys (fun entityId => !hasPrefix pre entityId))
  let (relations, lists) := lists.alloc
    (h.relationList.filter (fun relation => !InMemoryKnowledgeGraph.touches pre relation))
  ((entitiesSnapshot, relationsSnapshot), ⟨dicts, lists, entities, relations⟩)

/-- `persist_extraction`. -/
def persistExtraction (h : HeapGraph) (fails : ℕ → Option PyError) (ownerSegment sourceId : String)
    (entities : List Entity) (relations : List Relation) : Except PyError Unit × HeapGraph :=
  let (snapshot, h) := h.rebindWithoutPrefix (extractionEntityPrefix ownerSegment sourceId)
  match writeLoop fails upsertEntity 0 entities h with
  | (some e, h) => (.error e, { h with entities := snapshot.1, relations := snapshot.2 })
  | (none, h) =>
    match writeLoop fails addRelation entities.length relations h with
    | (some e, h) => (.error e, { h with entities := snapshot.1, relations := snapshot.2 })
    | (none, h) => (.ok (), h)

/-! ### Writing in place -/

/-- What writes in place do: the attributes stay bound, and only the objects they name change. -/
structure InPlace (h h' : HeapGraph) : Prop where
  entities : h'.entities = h.entities
  relations : h'.relations = h.relations
  dicts : Heap.OnlyAt h.entities h.dicts h'.dicts
  lists : Heap.OnlyAt h.relations h.lists h'.lists

theorem InPlace.refl (h : HeapGraph) : InPlace h h := ⟨rfl, rfl, .refl _ _, .refl _ _⟩

theorem InPlace.trans {h h' h'' : HeapGraph} (h₁ : InPlace h h') (h₂ : InPlace h' h'') : InPlace h h'' where
  entities := h₂.entities.trans h₁.entities
  relations := h₂.relations.trans h₁.relations
  dicts := h₁.dicts.trans (h₁.entities ▸ h₂.dicts)
  lists := h₁.lists.trans (h₁.relations ▸ h₂.lists)

section rebind
variable {h w : HeapGraph} {g : InMemoryKnowledgeGraph}

end rebind

/-- `_persist_extraction` over the containers. -/
def persistResult (rt : IngestRuntime) (service : IngestionService) (plan : IngestPlan)
    (fails : ℕ → Option PyError) (chunkEntityIds : List String) (result : ExtractionResult)
    (h : HeapGraph) : Except PyError (List String × ℕ) × HeapGraph :=
  let kept := collectEntities rt plan service.maxExtractedEntities result.entities []
  match collectRelations rt service.maxExtractedRelations result.relations kept chunkEntityIds with
  | .error e => (.error e, h)
  | .ok relations =>
    match h.persistExtraction fails plan.ownerSegment plan.sourceId (kept.map (·.2)) relations with
    | (.error e, h) => (.error e, h)
    | (.ok (), h) => (.ok (kept.map (·.2.id), relations.length), h)

end HeapGraph

/-! ### The whole call -/

/-- An extractor with a state of its own, which a call may change. -/
abbrev StatefulExtractor (σ : Type) : Type := String → σ → Except PyError ExtractionResult × σ

/-- The store with its containers, and the audit log, where there is one. -/
structure HeapState where
  graph : HeapGraph
  audit : Option AuditLog := none

namespace HeapState
variable {σ : Type}

/-- `_enrich_with_extraction`. -/
def enrichWithExtraction (rt : IngestRuntime) (service : IngestionService)
    (extractor : Option (StatefulExtractor σ)) (document : IngestDocument) (plan : IngestPlan)
    (fails : ℕ → Option PyError) (chunkEntityIds : List String) (h : HeapGraph) (world : σ) :
    (List String × ℕ) × HeapGraph × σ :=
  match extractor with
  | none => (([], 0), h, world)
  | some extract =>
    match extract document.text world with
    | (.error _, world) => (([], 0), h, world)
    | (.ok result, world) =>
      match h.persistResult rt service plan fails chunkEntityIds result with
      | (.error _, h) => (([], 0), h, world)
      | (.ok counts, h) => (counts, h, world)

/-- `IngestionService.ingest`, the extractor of the service being `extractor`. -/
def ingest (rt : IngestRuntime) (service : IngestionService) (extractor : Option (StatefulExtractor σ))
    (fails : ℕ → Option PyError) (principal : Option Principal) (document : IngestDocument)
    (hs : HeapState) (world : σ) : Except PyError IngestionResult × HeapState × σ :=
  match planIngest rt service principal document with
  | .error e => (.error e, hs, world)
  | .ok (principal, plan) =>
    let entities := chunkEntities document plan
    let entityIds := entities.map (·.id)
    let ((extractedIds, relationCount), graph, world) := enrichWithExtraction rt service extractor document
      plan fails entityIds (entities.foldl HeapGraph.upsertEntity hs.graph) world
    let extractedCount := if extractor.isNone then none else some extractedIds.length
    let relationCountOut := if extractor.isNone then none else some relationCount
    (.ok {
      entityIds := entityIds
      chunkCount := entityIds.length
      scope := plan.scope
      sourceId := plan.sourceId
      extractedEntityCount := extractedCount
      relationCount := relationCountOut },
    { graph := graph
      audit := hs.audit.map (fun log => log.ingested plan.sourceId plan.scope.value entityIds.length
        principal.userId extractedCount relationCountOut) }, world)

variable (rt : IngestRuntime) (service : IngestionService) (extractor : Option (StatefulExtractor σ))
  (fails : ℕ → Option PyError) (principal : Option Principal) (document : IngestDocument)

/-- An accepted call answers normally. -/
theorem ingest_of_ok {who : Principal} {plan : IngestPlan}
    (h : planIngest rt service principal document = .ok (who, plan)) (hs : HeapState) (world : σ) :
    ∃ result hs' world', ingest rt service extractor fails principal document hs world =
      (.ok result, hs', world') := by
  rw [ingest, h]
  exact ⟨_, _, _, rfl⟩

/-- A refused call changes nothing and does not call the extractor. -/
theorem ingest_of_error {e : PyError} {hs : HeapState} {world : σ}
    (h : (ingest rt service extractor fails principal document hs world).1 = .error e) :
    ingest rt service extractor fails principal document hs world = (.error e, hs, world) := by
  cases hplan : planIngest rt service principal document with
  | error e' =>
    have hout : ingest rt service extractor fails principal document hs world =
        (.error e', hs, world) := by rw [ingest, hplan]
    rw [hout] at h ⊢
    cases h
    rfl
  | ok res =>
    obtain ⟨who, plan⟩ := res
    obtain ⟨result, hs', world', hok⟩ := ingest_of_ok rt service extractor fails principal document hplan
      hs world
    rw [hok] at h
    cases h

end HeapState

end Atlas
