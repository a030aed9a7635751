import Atlas.Lib.Like
import Atlas.Lib.Paging
import Atlas.Lib.Table
import Atlas.Knowledge.MemoryStore
import Atlas.Persistence.Jsonb

/-! The durable knowledge graph: the entity table, the parameters of a query and the two statements that
    select rows. Both statements share one access predicate over the acl column, built from static SQL
    and four parameters derived from the principal's permissions. What only the database knows (text
    search, collation, distances between vectors, what its vector index hands out) is a parameter of the
    model. A statement whose texts cannot be bound, or whose limit is no `bigint`, raises. -/

namespace Atlas

open Text Like

/-- One row of `atlas_kg_entities`; a NULL acl or embedding is `none`. -/
structure KgRow (V : Type) where
  id : String
  type : String
  name : String
  content : String
  acl : Option (List String)
  scope : Scope
  embedding : Option V := none

/-- The table: ids are its primary key. -/
abbrev KgTable (V : Type) : Type := Table (fun row : KgRow V => row.id)

/-- `_row_to_entity`. -/
def rowToEntity {V : Type} (row : KgRow V) : Entity where
  id := row.id
  type := row.type
  name := row.name
  content := row.content
  acl := row.acl.getD []
  scope := row.scope

/-! ### Parameters -/

/-- The parameters of the access predicate. -/
structure RbacParams where
  isAdmin : Bool
  exact : List String
  wildcardLike : List String
  identityPrefix : String

/-- The texts a statement binds for its access predicate. -/
def RbacParams.texts (params : RbacParams) : List String :=
  params.exact ++ params.wildcardLike ++ [params.identityPrefix]

/-- The access parameters `query` derives from the principal's permissions. -/
def rbacParams (policy : PolicyStore) (principal : Option Principal) : RbacParams :=
  let permissions := policy.effectivePermissions principal
  { isAdmin := permissions.contains WILDCARD
    exact := permissions.filter (fun p => p != WILDCARD && !hasSuffix ":*" p) ++
      (principal.map (fun p => identityAcl p.userId)).toList
    wildcardLike :=
      (permissions.filter (hasSuffix ":*")).map (fun p => likeEscape (dropLast p) ++ "%")
    identityPrefix := IDENTITY_ACL_PREFIX ++ "%" }

/-- All parameters of a query but the window. -/
structure BaseParams extends RbacParams where
  matchAll : Bool
  text : String
  patterns : List String

/-- The texts `_QUERY` binds. -/
def BaseParams.texts (params : BaseParams) : List String :=
  params.toRbacParams.texts ++ params.text :: params.patterns

/-- `terms` of a query text. -/
def queryTerms (rt : TextRuntime) (text : String) : List String := split (rt.lower text)

/-- The `base_params` of `query`. -/
def baseParams (rt : TextRuntime) (policy : PolicyStore) (principal : Option Principal) (text : String) :
    BaseParams where
  toRbacParams := rbacParams policy principal
  matchAll := (queryTerms rt text).isEmpty
  text := text
  patterns := (queryTerms rt text).map (fun term => "%" ++ likeEscape term ++ "%")

/-! ### The statements -/

/-- `acl && exact`. -/
def overlaps (acl exact : List String) : Bool := acl.any (exact.contains ·)

/-- Some entry that is no identity entry passes a test. -/
def anyRoleEntry (params : RbacParams) (test : String → Bool) (acl : List String) : Bool :=
  acl.any (fun a => !like params.identityPrefix a && test a)

/-- `_RBAC_PREDICATE` on the acl column. -/
def rbacPredicate (params : RbacParams) : Option (List String) → Bool
  | none => true
  | some acl =>
    acl.length == 0 || overlaps acl params.exact ||
      anyRoleEntry params (fun a => params.wildcardLike.any (like · a)) acl ||
      (params.isAdmin && (anyRoleEntry params (fun _ => true) acl || overlaps acl params.exact))

/-- What the database decides: text search, case-insensitive `LIKE`, the order of ids under its collation,
    distances between vectors, whether a vector has the width of the column, and which of the rows that a
    condition selects it hands out by distance from a vector. The last is the index's choice, which filters
    after it has searched: selected rows may be left out, but none is made up or handed out twice. -/
structure Database (V D : Type) where
  tsMatch : String → String → Bool
  ilike : String → String → Bool
  idLe : String → String → Bool
  distance : V → V → D
  distanceLe : D → D → Bool
  fits : V → Bool
  scan : V → (KgRow V → Bool) → List (KgRow V) → List (KgRow V)
  scan_subperm : ∀ qvec selects rows, (scan qvec selects rows).Subperm (rows.filter selects)

section statements
variable {V D : Type} (db : Database V D)

/-- The relevance condition of `_QUERY`. -/
def relevant (params : BaseParams) (row : KgRow V) : Bool :=
  params.matchAll || db.tsMatch (row.name ++ " " ++ row.content) params.text ||
    params.patterns.any (db.ilike · row.name) || params.patterns.any (db.ilike · row.content)

/-- The WHERE clause of `_QUERY`. -/
def ftsSelects (params : BaseParams) (row : KgRow V) : Bool :=
  rbacPredicate params.toRbacParams row.acl && relevant db params row

/-- The WHERE clause of `_VECTOR_QUERY`. -/
def vectorSelects (params : BaseParams) (row : KgRow V) : Bool :=
  rbacPredicate params.toRbacParams row.acl && row.embedding.isSome

/-- The rows of `_QUERY` before its window, in id order. -/
def ftsRows (params : BaseParams) (table : KgTable V) : List (KgRow V) :=
  (table.rows.filter (ftsSelects db params)).insertionSort (fun a b => db.idLe a.id b.id = true)

/-- `ORDER BY embedding <=> qvec`: is row `a` at most as far away as row `b`? -/
def nearer (distance : V → V → D) (distanceLe : D → D → Bool) (qvec : V) (a b : KgRow V) : Bool :=
  match a.embedding, b.embedding with
  | some x, some y => distanceLe (distance x qvec) (distance y qvec)
  | _, _ => true

/-- The scan without an index: all selected rows, nearest first. -/
def exactScan (distance : V → V → D) (distanceLe : D → D → Bool) (qvec : V) (selects : KgRow V → Bool)
    (rows : List (KgRow V)) : List (KgRow V) :=
  (rows.filter selects).insertionSort (fun a b => nearer distance distanceLe qvec a b = true)

theorem exactScan_subperm (distance : V → V → D) (distanceLe : D → D → Bool) (qvec : V)
    (selects : KgRow V → Bool) (rows : List (KgRow V)) :
    (exactScan distance distanceLe qvec selects rows).Subperm (rows.filter selects) :=
  (List.perm_insertionSort _ _).subperm

/-- The rows of `_VECTOR_QUERY`. -/
def vectorRows (params : BaseParams) (qvec : V) (limit : ℕ) (table : KgTable V) : List (KgRow V) :=
  (db.scan qvec (vectorSelects params) table.rows).take limit

/-- The largest `bigint`. -/
def BIGINT_MAX : ℕ := 2 ^ 63 - 1

def numericValueOutOfRange : PyError := ⟨"NumericValueOutOfRange", "bigint out of range"⟩

/-- A statement with its text parameters and its limit, and the rows it has: psycopg binds no text with a
    NUL, and PostgreSQL takes no limit beyond `bigint`. Neither error is a `DataException`. -/
def execute {α : Type} (texts : List String) (limit : ℕ) (rows : α) : Except PyError α :=
  if !bindable texts then .error dataError
  else if BIGINT_MAX < limit then .error numericValueOutOfRange
  else .ok rows

/-- The database takes the parameters of a statement. -/
structure Executable (texts : List String) (limit : ℕ) : Prop where
  texts : bindable texts = true
  limit : limit ≤ BIGINT_MAX

theorem execute_eq_ok {α : Type} {texts : List String} {limit : ℕ} {rows result : α} :
    execute texts limit rows = .ok result ↔ Executable texts limit ∧ rows = result := by
  rw [execute]
  split
  next hnul =>
    refine iff_of_false (fun h => by cases h) fun h => ?_
    rw [h.1.texts] at hnul
    cases hnul
  next hbind =>
    split
    next hlarge => exact iff_of_false (fun h => by cases h) fun h => absurd hlarge (not_lt.mpr h.1.limit)
    next hsmall =>
      rw [Bool.not_eq_true, Bool.not_eq_false'] at hbind
      rw [Except.ok.injEq]
      exact ⟨fun h => ⟨⟨hbind, not_lt.mp hsmall⟩, h⟩, fun h => h.2⟩

/-- Which error a statement raises does not depend on its rows. -/
theorem execute_error {α β : Type} {texts : List String} {limit : ℕ} {rows : α} {error : PyError}
    (h : execute texts limit rows = .error error) (rows' : β) : execute texts limit rows' = .error error := by
  rw [execute] at h ⊢
  split at h
  next hnul =>
    cases h
    exact if_pos hnul
  next hbind =>
    rw [if_neg hbind]
    split at h
    next hlarge =>
      cases h
      exact if_pos hlarge
    next => cases h

end statements

/-! ### Retrieval -/

/-- The arithmetic of scores: zero, addition, the reciprocal of a positive whole number, comparison. -/
structure Scores (S : Type) where
  zero : S
  add : S → S → S
  recip : ℕ → S
  le : S → S → Bool

def RRF_K : ℕ := 60
def CANDIDATE_MULTIPLIER : ℕ := 4

/-- Add the scores of one ranking, from a rank on. -/
def addRanking {S : Type} (sc : Scores S) (k : ℕ) : ℕ → List String → Dict String S → Dict String S
  | _, [], scores => scores
  | rank, entityId :: ranking, scores =>
    addRanking sc k (rank + 1) ranking
      (scores.set entityId (sc.add ((scores.get? entityId).getD sc.zero) (sc.recip (k + rank + 1))))

/-- The summed scores of all rankings. -/
def rrfScores {S : Type} (sc : Scores S) (k : ℕ) (rankings : List (List String)) : Dict String S :=
  rankings.foldl (fun scores ranking => addRanking sc k 0 ranking scores) Dict.empty

/-- `_rrf_fuse`: the ids by decreasing score, ties in order of first appearance. -/
def rrfFuse {S : Type} (sc : Scores S) (k : ℕ) (rankings : List (List String)) : List String :=
  let scores := rrfScores sc k rankings
  let score := fun entityId => (scores.get? entityId).getD sc.zero
  scores.keys.insertionSort (fun a b => sc.le (score b) (score a) = true)

/-- The inner loop of `_fts_query`: readable rows of a page, up to the limit. -/
def collectReadable (readable : Entity → Bool) (limit : ℕ) : List Entity → List Entity → List Entity
  | [], results => results
  | entity :: rows, results =>
    if readable entity then
      if limit ≤ (results ++ [entity]).length then results ++ [entity]
      else collectReadable readable limit rows (results ++ [entity])
    else collectReadable readable limit rows results

/-- The pages of a statement's rows: what executing it at an offset fetches. -/
def fetchPage (texts : List String) (rows : List Entity) (limit offset : ℕ) : Except PyError (List Entity) :=
  execute texts limit (Paging.page rows offset limit)

/-- The loop of `_fts_query` over the pages `fetch` gives; `fuel` bounds their number. -/
def ftsLoop (readable : Entity → Bool) (fetch : ℕ → Except PyError (List Entity)) (limit : ℕ) :
    ℕ → ℕ → List Entity → Except PyError (List Entity)
  | 0, _, results => .ok results
  | fuel + 1, offset, results =>
    if results.length < limit then do
      let batch ← fetch offset
      if batch.isEmpty then .ok results
      else
        let results := collectReadable readable limit batch results
        if limit ≤ results.length then .ok results
        else if batch.length < limit then .ok results
        else ftsLoop readable fetch limit fuel (offset + batch.length) results
    else .ok results

/-- `_fts_query`, given the texts and the rows of `_QUERY`. Every page but the last is full, so there are at
    most as many as rows, and one empty one. -/
def ftsQuery (readable : Entity → Bool) (texts : List String) (rows : List Entity) (limit : ℕ) :
    Except PyError (List Entity) :=
  ftsLoop readable (fetchPage texts rows limit) limit (rows.length + 1) 0 []

/-- What the loop of `_hybrid_query` carries. -/
structure HybridState where
  entitiesById : Dict String Entity
  ftsIds : List String := []
  considered : List String := []
  results : List Entity := []

/-- Take one full-text row into the ranking. -/
def HybridState.absorb (st : HybridState) (entity : Entity) : HybridState :=
  { st with
    entitiesById := st.entitiesById.set entity.id entity
    ftsIds := if entity.id ∈ st.ftsIds then st.ftsIds else st.ftsIds ++ [entity.id] }

/-- Go through the fused ranking: ids not considered yet, up to the limit. -/
def HybridState.scan (readable : Entity → Bool) (limit : ℕ) : List String → HybridState → HybridState
  | [], st => st
  | entityId :: fused, st =>
    if entityId ∈ st.considered then scan readable limit fused st
    else
      match st.entitiesById.get? entityId with
      | none => scan readable limit fused st  -- not reached: every ranked id came with its row
      | some entity =>
        let considered := entityId :: st.considered
        if readable entity then
          let results := st.results ++ [entity]
          if limit ≤ results.length then { st with considered := considered, results := results }
          else scan readable limit fused { st with considered := considered, results := results }
        else scan readable limit fused { st with considered := considered }

/-- One page: absorb its rows, fuse the rankings, go through the result. -/
def HybridState.page {S : Type} (sc : Scores S) (readable : Entity → Bool) (limit : ℕ)
    (vecIds : List String) (batch : List Entity) (st : HybridState) : HybridState :=
  let st := batch.foldl absorb st
  st.scan readable limit (rrfFuse sc RRF_K [st.ftsIds, vecIds])

/-- The loop of `_hybrid_query` over the pages of the full-text rows. -/
def hybridLoop {S : Type} (sc : Scores S) (readable : Entity → Bool)
    (fetch : ℕ → Except PyError (List Entity)) (vecIds : List String) (limit : ℕ) :
    ℕ → ℕ → HybridState → Except PyError (List Entity)
  | 0, _, st => .ok st.results
  | fuel + 1, offset, st =>
    if st.results.length < limit then do
      let batch ← fetch offset
      if batch.isEmpty then .ok st.results
      else
        let st := st.page sc readable limit vecIds batch
        if limit ≤ st.results.length then .ok st.results
        else if batch.length < limit then .ok st.results
        else hybridLoop sc readable fetch vecIds limit fuel (offset + batch.length) st
    else .ok st.results

/-- The part of `_hybrid_query` after the vector candidates are at hand. -/
def hybridFuse {S : Type} (sc : Scores S) (readable : Entity → Bool) (texts : List String)
    (rows candidates : List Entity) (limit : ℕ) : Except PyError (List Entity) :=
  hybridLoop sc readable (fetchPage texts rows limit) (candidates.map (·.id)) limit (rows.length + 1) 0
    { entitiesById := Dict.empty.setAll (·.id) candidates }

section query
variable {V D S : Type} (db : Database V D) (sc : Scores S)
  (embedOne : String → Except PyError V) (policy : PolicyStore) (principal : Option Principal)

/-- The entities of the full-text branch, in order. -/
def ftsEntities (params : BaseParams) (table : KgTable V) : List Entity :=
  (ftsRows db params table).map rowToEntity

/-- `pool`, the number of vector candidates. -/
def vectorPool (limit : ℕ) : ℕ := max (limit * CANDIDATE_MULTIPLIER) limit

/-- The entities of the vector branch, in the order they were handed out. -/
def vectorEntities (params : BaseParams) (qvec : V) (limit : ℕ) (table : KgTable V) : List Entity :=
  (vectorRows db params qvec (vectorPool limit) table).map rowToEntity

/-- The re-filter applied to every row. -/
def readableBy (policy : PolicyStore) (principal : Option Principal) (entity : Entity) : Bool :=
  canRead principal entity (some policy)

/-- `_hybrid_query`; a failing embedding call or a vector of the wrong width degrades to full text. Any other
    error of the vector statement escapes. -/
def hybridQuery (text : String) (params : BaseParams) (limit : ℕ) (table : KgTable V) :
    Except PyError (List Entity) :=
  let readable := readableBy policy principal
  match embedOne text with
  | .error _ => ftsQuery readable params.texts (ftsEntities db params table) limit
  | .ok qvec => do
    let candidates ← execute params.toRbacParams.texts (vectorPool limit)
      (vectorEntities db params qvec limit table)
    if db.fits qvec then
      hybridFuse sc readable params.texts (ftsEntities db params table) candidates limit
    else ftsQuery readable params.texts (ftsEntities db params table) limit

/-- `PostgresKnowledgeGraph.query`; without an embedder or without terms it is the full-text path. -/
def postgresQuery (rt : TextRuntime) (embedder : Option (String → Except PyError V)) (text : String)
    (limit : ℕ) (table : KgTable V) : Except PyError (List Entity) :=
  let params := baseParams rt policy principal text
  let fts := ftsQuery (readableBy policy principal) params.texts (ftsEntities db params table) limit
  match embedder with
  | none => fts
  | some embedOne =>
    if params.matchAll then fts
    else hybridQuery db sc embedOne policy principal text params limit table

end query

end Atlas
