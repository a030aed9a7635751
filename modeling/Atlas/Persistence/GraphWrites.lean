import Atlas.Lib.Fallible
import Atlas.Persistence.Embeddings
import Atlas.Persistence.Jsonb

/-! The two backends of the knowledge graph under the same writes: dictionaries with a prefix filter in
    memory, two tables with an escaped `LIKE`, unique indexes and a transaction in Postgres. The database
    refuses a text with a NUL, an index entry that is too long and a vector of the wrong width; a call it
    refuses raises and is rolled back. `sameKnowledge_call` is the simulation, call by call. -/

namespace Atlas

open Text

variable {V : Type}

/-! ### The durable graph -/

/-- The tables `atlas_kg_entities` and `atlas_kg_relations`; a relation is its own unique key. -/
structure PostgresGraph (V : Type) where
  entities : KgTable V := Table.empty
  relations : Table (fun relation : Relation => relation) := Table.empty

/-- What the database takes besides texts without NUL: keys that fit a page of their index, rows whose text
    search vector is not too long, and vectors of the width of the column. -/
structure PostgresLimits (V : Type) where
  keyFits : List String → Bool
  rowFits : Entity → Bool
  vectorFits : V → Bool

/-- A call of the write interface, with the outcome of its embedding calls. -/
inductive GraphCall where
  | upsertEntity (w : EntityWrite)
  | addRelation (relation : Relation)
  | persistExtraction (ownerSegment sourceId : String) (writes : List EntityWrite)
      (relations : List Relation)

section statements
variable (limits : PostgresLimits V) (embed : String → V)

/-- The database takes the row of an entity. -/
def acceptsEntity (w : EntityWrite) : Bool :=
  bindable ([w.entity.id, w.entity.type, w.entity.name, w.entity.content] ++ w.entity.acl) &&
    limits.keyFits [w.entity.id] && limits.rowFits w.entity &&
    (!w.embedded || limits.vectorFits (embed (embeddingText w.entity)))

/-- The database takes the row of a relation. -/
def acceptsRelation (r : Relation) : Bool :=
  bindable [r.srcId, r.dstId, r.type] && limits.keyFits [r.srcId, r.dstId, r.type]

/-- `_UPSERT_ENTITY` and `_UPSERT_ENTITY_VEC`; `none` is an exception. -/
def executeUpsert (table : KgTable V) (w : EntityWrite) : Option (KgTable V) :=
  if acceptsEntity limits embed w then some (writeEntity embed table w) else none

/-- `_INSERT_RELATION`. -/
def executeInsert (table : Table (fun relation : Relation => relation)) (r : Relation) :
    Option (Table (fun relation : Relation => relation)) :=
  if acceptsRelation limits r then some (table.insertNew r) else none

/-- `_DELETE_RELATIONS_BY_ENTITY_PREFIX`. -/
def deleteRelations (table : Table (fun relation : Relation => relation)) (likePattern : String) :
    Table (fun relation : Relation => relation) :=
  table.delete (fun r => !(Like.like likePattern r.srcId || Like.like likePattern r.dstId))

namespace PostgresGraph

/-- `PostgresKnowledgeGraph.persist_extraction`: one transaction. -/
def persistExtraction (d : PostgresGraph V) (ownerSegment sourceId : String) (writes : List EntityWrite)
    (relations : List Relation) : Option (PostgresGraph V) := do
  let likePattern := Like.likeEscape (extractionEntityPrefix ownerSegment sourceId) ++ "%"
  if !bindable [likePattern] then none
  let kept := deleteRelations d.relations likePattern
  let entities ← writes.foldlM (executeUpsert limits embed)
    (deleteExtraction d.entities ownerSegment sourceId)
  let relations ← relations.foldlM (executeInsert limits) kept
  return ⟨entities, relations⟩

/-- One call; `none` where it raises. -/
def call (d : PostgresGraph V) : GraphCall → Option (PostgresGraph V)
  | .upsertEntity w => (executeUpsert limits embed d.entities w).map ({ d with entities := · })
  | .addRelation r => (executeInsert limits d.relations r).map ({ d with relations := · })
  | .persistExtraction ownerSegment sourceId writes relations =>
    d.persistExtraction limits embed ownerSegment sourceId writes relations

/-- The graph after a sequence of calls. A call that raises is rolled back. -/
def callAll (d : PostgresGraph V) (calls : List GraphCall) : PostgresGraph V :=
  calls.foldl (fun d c => (d.call limits embed c).getD d) d

/-- The entity the table holds under an id. -/
def entity? (d : PostgresGraph V) (id : String) : Option Entity := (d.entities.get? id).map rowToEntity

end PostgresGraph

/-- The database takes everything the call binds. -/
def GraphCall.accepted : GraphCall → Bool
  | .upsertEntity w => acceptsEntity limits embed w
  | .addRelation r => acceptsRelation limits r
  | .persistExtraction ownerSegment sourceId writes relations =>
    bindable [Like.likeEscape (extractionEntityPrefix ownerSegment sourceId) ++ "%"] &&
      writes.all (acceptsEntity limits embed) && relations.all (acceptsRelation limits)

end statements

/-- The same calls on the in-memory graph, which refuses none. -/
def InMemoryKnowledgeGraph.call (g : InMemoryKnowledgeGraph) : GraphCall → InMemoryKnowledgeGraph
  | .upsertEntity w => g.upsertEntity w.entity
  | .addRelation r => g.addRelation r
  | .persistExtraction ownerSegment sourceId writes relations =>
    (g.persistExtraction (fun _ => none) ownerSegment sourceId (writes.map (·.entity)) relations).2

def InMemoryKnowledgeGraph.callAll (g : InMemoryKnowledgeGraph) (calls : List GraphCall) :
    InMemoryKnowledgeGraph := calls.foldl call g

/-- Both backends hold the same map from ids to entities and the same set of relations. -/
structure SameKnowledge (g : InMemoryKnowledgeGraph) (d : PostgresGraph V) : Prop where
  entities : ∀ id, d.entity? id = g.entities.get? id
  relations : ∀ r, r ∈ d.relations.rows ↔ r ∈ g.relations

/-! ### What each write answers afterwards -/

section simulation
variable {limits : PostgresLimits V} {embed : String → V} {g : InMemoryKnowledgeGraph}
  {d : PostgresGraph V}

@[simp] theorem rowToEntity_kgRow (e : Entity) (v : Option V) : rowToEntity (kgRow e v) = e := rfl

/-- With or without a vector, a write puts the entity under its id. -/
theorem get?_writeEntity (table : KgTable V) (w : EntityWrite) (id : String) :
    ((writeEntity embed table w).get? id).map rowToEntity =
      if id = w.entity.id then some w.entity else (table.get? id).map rowToEntity := by
  rw [writeEntity]
  cases w.embedded with
  | true =>
    rw [if_pos rfl, upsertVec, Table.get?_upsert, kgRow_id]
    split
    next => cases table.get? id <;> rfl
    next => rfl
  | false =>
    rw [if_neg Bool.false_ne_true, upsertPlain, Table.get?_upsert, kgRow_id]
    split
    next => cases table.get? id <;> rfl
    next => rfl

theorem get?_deleteExtraction (table : KgTable V) (ownerSegment sourceId id : String) :
    (deleteExtraction table ownerSegment sourceId).get? id =
      if hasPrefix (extractionEntityPrefix ownerSegment sourceId) id = true then none else table.get? id := by
  rw [deleteExtraction, Table.get?_delete
    (p := fun id => !hasPrefix (extractionEntityPrefix ownerSegment sourceId) id)
    (fun row => by rw [Like.like_escape_percent])]
  cases hasPrefix (extractionEntityPrefix ownerSegment sourceId) id <;> rfl

theorem mem_deleteRelations (table : Table (fun relation : Relation => relation)) (pre : String)
    (r : Relation) : r ∈ (deleteRelations table (Like.likeEscape pre ++ "%")).rows ↔
      r ∈ table.rows ∧ InMemoryKnowledgeGraph.touches pre r = false := by
  rw [deleteRelations, Table.mem_delete, Like.like_escape_percent, Like.like_escape_percent,
    Bool.not_eq_true', InMemoryKnowledgeGraph.touches]

/-! ### Simulation -/

/-- One write of an entity on both sides. -/
theorem SameKnowledge.write (h : SameKnowledge g d) (w : EntityWrite) :
    SameKnowledge (g.upsertEntity w.entity) { d with entities := writeEntity embed d.entities w } := by
  refine ⟨fun id => ?_, h.relations⟩
  rw [PostgresGraph.entity?, get?_writeEntity, InMemoryKnowledgeGraph.upsertEntity, Dict.get?_set]
  exact if_congr Iff.rfl rfl (h.entities id)

/-- One insert of a relation on both sides. -/
theorem SameKnowledge.insert (h : SameKnowledge g d) (r : Relation) :
    SameKnowledge (g.addRelation r) { d with relations := d.relations.insertNew r } := by
  refine ⟨h.entities, fun s => ?_⟩
  rw [Table.mem_insertNew, InMemoryKnowledgeGraph.mem_addRelation, h.relations]

/-- The deletes of `persist_extraction`: an escaped `LIKE` selects what the prefix test selects. -/
theorem SameKnowledge.dropPrefix (h : SameKnowledge g d) (ownerSegment sourceId : String) :
    SameKnowledge (g.dropPrefix (extractionEntityPrefix ownerSegment sourceId))
      ⟨deleteExtraction d.entities ownerSegment sourceId,
        deleteRelations d.relations (Like.likeEscape (extractionEntityPrefix ownerSegment sourceId) ++ "%")⟩ := by
  refine ⟨fun id => ?_, fun r => ?_⟩
  · rw [PostgresGraph.entity?, get?_deleteExtraction, InMemoryKnowledgeGraph.get?_dropPrefix, apply_ite
      (Option.map rowToEntity), Option.map_none]
    exact if_congr Iff.rfl rfl (h.entities id)
  · rw [mem_deleteRelations, InMemoryKnowledgeGraph.mem_dropPrefix, h.relations]

theorem SameKnowledge.writeAll (h : SameKnowledge g d) (ws : List EntityWrite) :
    SameKnowledge (g.upsertAll (ws.map (·.entity)))
      { d with entities := ws.foldl (writeEntity embed) d.entities } := by
  induction ws generalizing g d with
  | nil => exact h
  | cons w ws ih => exact ih (h.write w)

theorem SameKnowledge.insertAll (h : SameKnowledge g d) (rs : List Relation) :
    SameKnowledge (g.addAll rs) { d with relations := rs.foldl Table.insertNew d.relations } := by
  induction rs generalizing g d with
  | nil => exact h
  | cons r rs ih => exact ih (h.insert r)

theorem foldlM_executeUpsert (ws : List EntityWrite) (table : KgTable V) :
    ws.foldlM (executeUpsert limits embed) table =
      if ws.all (acceptsEntity limits embed) then some (ws.foldl (writeEntity embed) table) else none :=
  Fallible.foldlM_ite_none _ _ ws table

theorem foldlM_executeInsert (rs : List Relation) (table : Table (fun relation : Relation => relation)) :
    rs.foldlM (executeInsert limits) table =
      if rs.all (acceptsRelation limits) then some (rs.foldl Table.insertNew table) else none :=
  Fallible.foldlM_ite_none _ _ rs table

/-- The transaction commits all of its statements or, if the database refuses one, none. -/
theorem persistExtraction_eq (d : PostgresGraph V) (ownerSegment sourceId : String)
    (ws : List EntityWrite) (rs : List Relation) :
    d.persistExtraction limits embed ownerSegment sourceId ws rs =
      if (GraphCall.persistExtraction ownerSegment sourceId ws rs).accepted limits embed then
        some ⟨persistEntities embed d.entities ownerSegment sourceId ws,
          rs.foldl Table.insertNew (deleteRelations d.relations
            (Like.likeEscape (extractionEntityPrefix ownerSegment sourceId) ++ "%"))⟩
      else none := by
  rw [PostgresGraph.persistExtraction, foldlM_executeUpsert, GraphCall.accepted, persistEntities]
  generalize Like.likeEscape (extractionEntityPrefix ownerSegment sourceId) ++ "%" = likePattern
  simp only [foldlM_executeInsert]
  generalize bindable [likePattern] = b
  cases b with
  | false => rfl
  | true =>
    cases ws.all (acceptsEntity limits embed) with
    | false => rfl
    | true => cases rs.all (acceptsRelation limits) <;> rfl

/-- A call the database refuses raises. -/
theorem call_of_refused (d : PostgresGraph V) {c : GraphCall} (hc : ¬c.accepted limits embed = true) :
    d.call limits embed c = none := by
  cases c with
  | upsertEntity w =>
    have hw : ¬acceptsEntity limits embed w = true := hc
    rw [PostgresGraph.call, executeUpsert, if_neg hw, Option.map_none]
  | addRelation r =>
    have hr : ¬acceptsRelation limits r = true := hc
    rw [PostgresGraph.call, executeInsert, if_neg hr, Option.map_none]
  | persistExtraction ownerSegment sourceId ws rs =>
    rw [PostgresGraph.call, persistExtraction_eq, if_neg hc]

/-- The simulation step: a call the database takes has the same effect on both sides. -/
theorem sameKnowledge_call (h : SameKnowledge g d) {c : GraphCall} (hc : c.accepted limits embed = true) :
    ∃ d', d.call limits embed c = some d' ∧ SameKnowledge (g.call c) d' := by
  cases c with
  | upsertEntity w =>
    have hw : acceptsEntity limits embed w = true := hc
    refine ⟨{ d with entities := writeEntity embed d.entities w }, ?_, h.write w⟩
    rw [PostgresGraph.call, executeUpsert, if_pos hw, Option.map_some]
  | addRelation r =>
    have hr : acceptsRelation limits r = true := hc
    refine ⟨{ d with relations := d.relations.insertNew r }, ?_, h.insert r⟩
    rw [PostgresGraph.call, executeInsert, if_pos hr, Option.map_some]
  | persistExtraction ownerSegment sourceId ws rs =>
    have hquiet : InMemoryKnowledgeGraph.quiet (fun _ => none)
        ((ws.map (·.entity)).length + rs.length) = true :=
      InMemoryKnowledgeGraph.quiet_iff.mpr fun _ _ => rfl
    rw [PostgresGraph.call, persistExtraction_eq, if_pos hc, InMemoryKnowledgeGraph.call,
      InMemoryKnowledgeGraph.persistExtraction_of_quiet hquiet]
    exact ⟨_, rfl, ((h.dropPrefix ownerSegment sourceId).writeAll ws).insertAll rs⟩

/-- Along a whole sequence: the tables follow the calls that were taken. -/
theorem sameKnowledge_callAll (h : SameKnowledge g d) (calls : List GraphCall) :
    SameKnowledge (g.callAll (calls.filter (GraphCall.accepted limits embed)))
      (d.callAll limits embed calls) := by
  induction calls generalizing g d with
  | nil => exact h
  | cons c calls ih =>
    rw [List.filter_cons]
    by_cases hc : c.accepted limits embed = true
    · obtain ⟨d', hd', hsame⟩ := sameKnowledge_call h hc
      rw [if_pos hc, PostgresGraph.callAll, List.foldl_cons, hd']
      exact ih hsame
    · rw [if_neg hc, PostgresGraph.callAll, List.foldl_cons, call_of_refused d hc]
      exact ih h

end simulation

/-- From empty graphs, after any sequence of calls, the durable graph holds what the in-memory graph holds
    after those of the calls that the database takes. -/
theorem graphs_agree (limits : PostgresLimits V) (embed : String → V) (policy : Option PolicyStore)
    (calls : List GraphCall) :
    SameKnowledge
      ((InMemoryKnowledgeGraph.empty policy).callAll (calls.filter (GraphCall.accepted limits embed)))
      (PostgresGraph.callAll limits embed {} calls) :=
  sameKnowledge_callAll ⟨fun _ => rfl, fun _ => Iff.rfl⟩ calls

/-- A note whose id has a NUL. -/
def nulNote : GraphCall := .upsertEntity ⟨{ id := "a\x00", type := "note", name := "n" }, false⟩

/-- The in-memory graph keeps the note, Postgres refuses it. -/
theorem graphs_differ_nul : ¬SameKnowledge ((InMemoryKnowledgeGraph.empty none).callAll [nulNote])
    (PostgresGraph.callAll (V := Unit) ⟨fun _ => true, fun _ => true, fun _ => true⟩ (fun _ => ()) {}
      [nulNote]) := by
  intro h
  exact absurd (h.entities "a\x00") (by decide)

end Atlas
