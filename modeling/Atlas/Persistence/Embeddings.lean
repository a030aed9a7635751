import Atlas.Lib.Run
import Atlas.Persistence.KnowledgeStore

/-! The embedding column as a cache of the text columns. Calls of `upsert_entity` and
    `persist_extraction` and the steps of any number of backfills interleave; an embedding call may fail.
    A row is fresh if its vector is missing or belongs to its text. Two writes can break that: an upsert
    whose embedding call failed, which leaves the vector of the former text, and a backfill update, whose
    text was read in an earlier statement. `embeddings_fresh_iff` says exactly when neither does. -/

namespace Atlas

open LabelledRun

variable {V B : Type}

/-! ### Writes -/

/-- `_embedding_text`. -/
def embeddingText (entity : Entity) : String := entity.name ++ "\n" ++ entity.content

/-- The row a write binds. -/
def kgRow (entity : Entity) (embedding : Option V) : KgRow V where
  id := entity.id
  type := entity.type
  name := entity.name
  content := entity.content
  acl := some entity.acl
  scope := entity.scope
  embedding := embedding

@[simp] theorem kgRow_id (entity : Entity) (embedding : Option V) : (kgRow entity embedding).id = entity.id :=
  rfl

/-- The text of a row. -/
def KgRow.text (row : KgRow V) : String := embeddingText (rowToEntity row)

/-- `_UPSERT_ENTITY`: a row in the way keeps its embedding. -/
def upsertPlain (table : KgTable V) (entity : Entity) : KgTable V :=
  table.upsert (kgRow entity none) (fun old => kgRow entity old.embedding)
    (fun _ => by rw [kgRow_id, kgRow_id])

/-- `_UPSERT_ENTITY_VEC`. -/
def upsertVec (table : KgTable V) (entity : Entity) (vector : V) : KgTable V :=
  table.upsert (kgRow entity (some vector)) (fun _ => kgRow entity (some vector))
    (fun _ => by rw [kgRow_id])

/-- An entity to write, and whether its embedding call succeeds. -/
structure EntityWrite where
  entity : Entity
  embedded : Bool

/-- The write of `upsert_entity`, after the embedding call. -/
def writeEntity (embed : String → V) (table : KgTable V) (w : EntityWrite) : KgTable V :=
  if w.embedded then upsertVec table w.entity (embed (embeddingText w.entity))
  else upsertPlain table w.entity

/-- `_DELETE_ENTITIES_BY_PREFIX`. -/
def deleteExtraction (table : KgTable V) (ownerSegment sourceId : String) : KgTable V :=
  let likePattern := Like.likeEscape (extractionEntityPrefix ownerSegment sourceId) ++ "%"
  table.delete (fun row => !Like.like likePattern row.id)

/-- The transaction of `persist_extraction` on the entity table. -/
def persistEntities (embed : String → V) (table : KgTable V) (ownerSegment sourceId : String)
    (writes : List EntityWrite) : KgTable V :=
  writes.foldl (writeEntity embed) (deleteExtraction table ownerSegment sourceId)

/-- `UPDATE atlas_kg_entities SET embedding = … WHERE id = …`. -/
def setEmbedding (table : KgTable V) (id : String) (vector : V) : KgTable V :=
  table.update id (fun row => { row with embedding := some vector }) (fun _ h => h)

/-! ### Steps -/

def BACKFILL_BATCH : ℕ := 50

/-- Where a call of `_backfill_null_embeddings` stands in its loop. -/
inductive Backfill (V : Type) where
  | ready                                      -- before the loop or a round of it, or returned
  | selected (rows : List (String × String))   -- ids and texts of a batch
  | writing (updates : List (String × V))      -- ids and vectors still to write

/-- The table, and the backfills that run on it. -/
structure EmbeddingState (V B : Type) where
  table : KgTable V
  backfill : B → Backfill V

inductive EmbeddingStep (B : Type) where
  | upsert (w : EntityWrite)
  | persist (ownerSegment sourceId : String) (writes : List EntityWrite)
  | select (b : B) (ids : List String)
  | embed (b : B) (succeeds : Bool)
  | update (b : B)

def nullRows (table : KgTable V) : List (KgRow V) := table.rows.filter (·.embedding.isNone)

/-- The rows of a batch: which of the rows without embedding it holds is up to the database. -/
def batchOf (table : KgTable V) (ids : List String) : List (KgRow V) :=
  (nullRows table).filter (fun row => ids.contains row.id)

section steps
variable [DecidableEq B]

/-- Backfill `b` moves on. -/
def EmbeddingState.move (s : EmbeddingState V B) (b : B) (phase : Backfill V) : EmbeddingState V B :=
  { s with backfill := Function.update s.backfill b phase }

/-- `SELECT … WHERE embedding IS NULL LIMIT`; without rows the backfill returns. -/
def EmbeddingState.selectBatch (s : EmbeddingState V B) (b : B) (ids : List String) :
    Option (EmbeddingState V B) :=
  let rows := batchOf s.table ids
  if rows.length = min BACKFILL_BATCH (nullRows s.table).length then
    if rows.isEmpty then some (s.move b .ready)
    else some (s.move b (.selected (rows.map (fun row => (row.id, row.text)))))
  else none

/-- One atomic step. -/
def embeddingStep (embed : String → V) (s : EmbeddingState V B) :
    EmbeddingStep B → Option (EmbeddingState V B)
  | .upsert w => some { s with table := writeEntity embed s.table w }
  | .persist ownerSegment sourceId writes =>
    some { s with table := persistEntities embed s.table ownerSegment sourceId writes }
  | .select b ids => match s.backfill b with | .ready => s.selectBatch b ids | _ => none
  | .embed b succeeds =>
    match s.backfill b with
    | .selected rows =>
      -- the exception of a failed call ends the backfill
      if succeeds then some (s.move b (.writing (rows.map (fun r => (r.1, embed r.2)))))
      else some (s.move b .ready)
    | _ => none
  | .update b =>
    match s.backfill b with
    | .writing ((id, vector) :: updates) =>
      some (EmbeddingState.move { s with table := setEmbedding s.table id vector } b
        (if updates.isEmpty then .ready else .writing updates))
    | _ => none

end steps

/-! ### Freshness -/

section fresh
variable (embed : String → V)

/-- The embedding is NULL or that of the current text. -/
def KgRow.Fresh (row : KgRow V) : Prop := row.embedding = none ∨ row.embedding = some (embed row.text)

def FreshTable (table : KgTable V) : Prop := ∀ row ∈ table.rows, row.Fresh embed

instance [DecidableEq V] (row : KgRow V) : Decidable (row.Fresh embed) :=
  inferInstanceAs (Decidable (_ ∨ _))

instance [DecidableEq V] (table : KgTable V) : Decidable (FreshTable embed table) :=
  inferInstanceAs (Decidable (∀ row ∈ table.rows, row.Fresh embed))

/-- No row under the entity's id has a vector other than the one of the entity's text. -/
def KeepsVector (table : KgTable V) (entity : Entity) : Prop :=
  ∀ row ∈ table.rows, row.id = entity.id → ∀ v, row.embedding = some v → v = embed (embeddingText entity)

/-- The last write of every entity either has its vector or finds no vector of another text. -/
def WritesKeep : KgTable V → List EntityWrite → Prop
  | _, [] => True
  | table, w :: ws =>
    (w.embedded = false → w.entity.id ∉ ws.map (·.entity.id) → KeepsVector embed table w.entity) ∧
      WritesKeep (writeEntity embed table w) ws

/-- The condition on a step: an upsert without a vector finds none of another text, and a backfill writes a
    vector over a text it belongs to. -/
def Harmless (s : EmbeddingState V B) : EmbeddingStep B → Prop
  | .upsert w => WritesKeep embed s.table [w]
  | .persist ownerSegment sourceId writes =>
    WritesKeep embed (deleteExtraction s.table ownerSegment sourceId) writes
  | .update b =>
    match s.backfill b with
    | .writing ((id, vector) :: _) => ∀ row ∈ s.table.rows, row.id = id → vector = embed row.text
    | _ => True
  | .select _ _ => True
  | .embed _ _ => True

end fresh

variable {embed : String → V} {table : KgTable V}

/-! ### What the writes do to rows -/

theorem mem_upsertVec {entity : Entity} {vector : V} {row : KgRow V} :
    row ∈ (upsertVec table entity vector).rows ↔
      (row ∈ table.rows ∧ row.id ≠ entity.id) ∨ row = kgRow entity (some vector) := by
  rw [upsertVec, Table.mem_upsert, kgRow_id]
  refine or_congr Iff.rfl ⟨?_, fun h => ?_⟩
  · rintro (⟨-, -, -, rfl⟩ | ⟨-, rfl⟩) <;> rfl
  · by_cases hrow : ∃ old ∈ table.rows, old.id = entity.id
    · obtain ⟨old, hold, hid⟩ := hrow
      exact Or.inl ⟨old, hold, hid, h⟩
    · exact Or.inr ⟨fun old hold hid => hrow ⟨old, hold, hid⟩, h⟩

theorem mem_upsertPlain {entity : Entity} {row : KgRow V} : row ∈ (upsertPlain table entity).rows ↔
    (row ∈ table.rows ∧ row.id ≠ entity.id) ∨
    (∃ old ∈ table.rows, old.id = entity.id ∧ row = kgRow entity old.embedding) ∨
    (∀ old ∈ table.rows, old.id ≠ entity.id) ∧ row = kgRow entity none := by
  rw [upsertPlain, Table.mem_upsert, kgRow_id]

/-- A write leaves the rows under other ids. -/
theorem mem_writeEntity_of_ne {w : EntityWrite} {row : KgRow V} (h : row ∈ table.rows)
    (hne : row.id ≠ w.entity.id) : row ∈ (writeEntity embed table w).rows := by
  rw [writeEntity]
  cases w.embedded with
  | true => exact mem_upsertVec.mpr (Or.inl ⟨h, hne⟩)
  | false => exact mem_upsertPlain.mpr (Or.inl ⟨h, hne⟩)

theorem mem_writes_of_not_mem {ws : List EntityWrite} {row : KgRow V} (h : row ∈ table.rows)
    (hnot : row.id ∉ ws.map (·.entity.id)) : row ∈ (ws.foldl (writeEntity embed) table).rows := by
  induction ws generalizing table with
  | nil => exact h
  | cons w ws ih =>
    rw [List.map_cons, List.mem_cons, not_or] at hnot
    exact ih (mem_writeEntity_of_ne h hnot.1) hnot.2

/-! ### Freshness of a table -/

/-- All rows but those under some ids are fresh. -/
def FreshOutside (embed : String → V) (ids : List String) (table : KgTable V) : Prop :=
  ∀ row ∈ table.rows, row.id ∉ ids → row.Fresh embed

theorem freshOutside_nil : FreshOutside embed [] table ↔ FreshTable embed table :=
  forall₂_congr fun _ _ => ⟨fun h => h List.not_mem_nil, fun h _ => h⟩

theorem FreshTable.outside (h : FreshTable embed table) (ids : List String) :
    FreshOutside embed ids table := fun row hrow _ => h row hrow

/-- One write: what is stale afterwards, outside the ids still to be written, is the row it wrote without a
    vector over a vector of another text. -/
theorem freshOutside_write_iff {ids : List String} {w : EntityWrite}
    (h : FreshOutside embed (w.entity.id :: ids) table) :
    FreshOutside embed ids (writeEntity embed table w) ↔
      (w.embedded = false → w.entity.id ∉ ids → KeepsVector embed table w.entity) := by
  have hother : ∀ row ∈ table.rows, row.id ≠ w.entity.id → row.id ∉ ids → row.Fresh embed := by
    intro row hrow hne hnot
    exact h row hrow (by rw [List.mem_cons, not_or]; exact ⟨hne, hnot⟩)
  rw [writeEntity]
  cases w.embedded with
  | true =>
    refine iff_of_true (fun row hrow hnot => ?_) (fun hf => by cases hf)
    rcases mem_upsertVec.mp hrow with ⟨hrow, hne⟩ | rfl
    · exact hother row hrow hne hnot
    · exact Or.inr rfl
  | false =>
    constructor
    · intro hfresh _ hid old hold heq v hv
      have hnew : kgRow w.entity old.embedding ∈ (upsertPlain table w.entity).rows :=
        mem_upsertPlain.mpr (Or.inr (Or.inl ⟨old, hold, heq, rfl⟩))
      rcases hfresh _ hnew hid with hnone | hsome
      · exact absurd (hv.symm.trans hnone) (Option.some_ne_none v)
      · exact Option.some.inj (hv.symm.trans hsome)
    · intro hkeep row hrow hnot
      rcases mem_upsertPlain.mp hrow with ⟨hrow, hne⟩ | ⟨old, hold, heq, rfl⟩ | ⟨-, rfl⟩
      · exact hother row hrow hne hnot
      · cases hv : old.embedding with
        | none => exact Or.inl rfl
        | some v =>
          rw [hkeep rfl hnot old hold heq v hv]
          exact Or.inr rfl
      · exact Or.inl rfl

/-- A list of writes leaves a fresh table exactly when the last write of every entity keeps its vector. -/
theorem freshTable_writes_iff (ws : List EntityWrite)
    (h : FreshOutside embed (ws.map (·.entity.id)) table) :
    FreshTable embed (ws.foldl (writeEntity embed) table) ↔ WritesKeep embed table ws := by
  induction ws generalizing table with
  | nil => exact iff_of_true (freshOutside_nil.mp h) trivial
  | cons w ws ih =>
    -- a row no later write touches is in the table at the end
    have hstay : FreshTable embed (ws.foldl (writeEntity embed) (writeEntity embed table w)) →
        FreshOutside embed (ws.map (·.entity.id)) (writeEntity embed table w) :=
      fun hend row hrow hnot => hend row (mem_writes_of_not_mem hrow hnot)
    rw [List.foldl_cons, WritesKeep, ← freshOutside_write_iff h]
    exact ⟨fun hend => ⟨hstay hend, (ih (hstay hend)).mp hend⟩, fun hkeep => (ih hkeep.1).mpr hkeep.2⟩

theorem freshTable_delete (h : FreshTable embed table) (keep : KgRow V → Bool) :
    FreshTable embed (table.delete keep) := fun row hrow => h row (Table.mem_delete.mp hrow).1

theorem freshTable_setEmbedding_iff (h : FreshTable embed table) {id : String} {vector : V} :
    FreshTable embed (setEmbedding table id vector) ↔
      ∀ row ∈ table.rows, row.id = id → vector = embed row.text := by
  constructor
  · intro hfresh row hrow hid
    have hnew : { row with embedding := some vector } ∈ (setEmbedding table id vector).rows :=
      Table.mem_update.mpr (Or.inr ⟨row, hrow, hid, rfl⟩)
    rcases hfresh _ hnew with hnone | hsome
    · cases hnone
    · exact Option.some.inj hsome
  · intro hall row hrow
    rcases Table.mem_update.mp hrow with ⟨hrow, -⟩ | ⟨old, hold, hid, rfl⟩
    · exact h row hrow
    · exact Or.inr (congrArg some (hall old hold hid))

/-! ### Runs -/

section runs
variable [DecidableEq B] {s s' : EmbeddingState V B}

/-- Selecting a batch changes no row. -/
theorem selectBatch_table {b : B} {ids : List String} (h : s.selectBatch b ids = some s') :
    s'.table = s.table := by
  rw [EmbeddingState.selectBatch] at h
  split at h
  next =>
    split at h <;> (cases h; rfl)
  next => cases h

/-- A step keeps a table fresh exactly when it is harmless. -/
theorem freshTable_step_iff {l : EmbeddingStep B} (hfresh : FreshTable embed s.table)
    (hstep : embeddingStep embed s l = some s') :
    FreshTable embed s'.table ↔ Harmless embed s l := by
  cases l with
  | upsert w =>
    cases hstep
    exact freshTable_writes_iff [w] (hfresh.outside _)
  | persist ownerSegment sourceId writes =>
    cases hstep
    exact freshTable_writes_iff writes ((freshTable_delete hfresh _).outside _)
  | select b ids =>
    refine iff_of_true ?_ trivial
    rw [embeddingStep] at hstep
    split at hstep
    next => exact selectBatch_table hstep ▸ hfresh
    next => cases hstep
  | embed b succeeds =>
    refine iff_of_true ?_ trivial
    rw [embeddingStep] at hstep
    split at hstep
    next => split at hstep <;> (cases hstep; exact hfresh)
    next => cases hstep
  | update b =>
    rw [embeddingStep] at hstep
    split at hstep
    next id vector updates hphase =>
      cases hstep
      rw [Harmless, hphase]
      exact freshTable_setEmbedding_iff hfresh
    next => cases hstep

/-- A step that is not enabled harms nothing. -/
theorem harmless_of_disabled {l : EmbeddingStep B} (hstep : embeddingStep embed s l = none) :
    Harmless embed s l := by
  cases l with
  | upsert w => cases hstep
  | persist ownerSegment sourceId writes => cases hstep
  | select b ids => trivial
  | embed b succeeds => trivial
  | update b =>
    rw [embeddingStep] at hstep
    split at hstep
    next => cases hstep
    next hphase =>
      rw [Harmless]
      split
      next id vector updates hwriting => exact absurd hwriting (hphase id vector updates)
      next => trivial

/-- From a fresh table, every state of a run has a fresh table exactly when every step of the run is
    harmless where it is taken. -/
theorem embeddings_fresh_iff (embed : String → V) (s : EmbeddingState V B)
    (hfresh : FreshTable embed s.table) (run : List (EmbeddingStep B)) :
    Always (embeddingStep embed) (fun s => FreshTable embed s.table) s run ↔
      Respects (embeddingStep embed) (Harmless embed) s run :=
  always_iff_respects (fun _ _ _ => freshTable_step_iff) (fun _ _ => harmless_of_disabled) hfresh

end runs

/-! ### One note -/

/-- A note in some version. -/
def noteWrite (content : String) (embedded : Bool) : EntityWrite where
  entity := { id := "n1", type := "note", name := "plan", content := content }
  embedded := embedded

/-- An empty store with one backfill, where a text is its own vector. -/
def emptyStore : EmbeddingState String Unit := ⟨Table.empty, fun _ => .ready⟩

/-- A note stored without a vector gets one from the backfill. -/
theorem embeddings_fresh_backfill :
    Always (embeddingStep id) (fun s => FreshTable id s.table) emptyStore
      [.upsert (noteWrite "draft" false), .select () ["n1"], .embed () true, .update ()] :=
  (embeddings_fresh_iff id emptyStore (by decide) _).mpr
    (.cons rfl ⟨fun _ _ _ hrow => absurd hrow List.not_mem_nil, trivial⟩
      (.cons rfl trivial (.cons rfl trivial
        (.cons rfl (fun row hrow _ => by rw [List.mem_singleton.mp hrow]) .nil))))

/-- A failed embedding call leaves the vector of the former text, and so does a backfill that read the
    former text before a successful upsert. -/
theorem embeddings_stale :
    ¬Always (embeddingStep id) (fun s => FreshTable id s.table) emptyStore
      [.upsert (noteWrite "draft" true), .upsert (noteWrite "final" false)] ∧
    ¬Always (embeddingStep id) (fun s => FreshTable id s.table) emptyStore
      [.upsert (noteWrite "draft" false), .select () ["n1"], .embed () true,
        .upsert (noteWrite "final" true), .update ()] := by
  constructor
  · intro h
    exact absurd (h _ _ (List.prefix_refl _) rfl) (by decide)
  · intro h
    exact absurd (h _ _ (List.prefix_refl _) rfl) (by decide)

end Atlas
