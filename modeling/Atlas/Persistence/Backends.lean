import Atlas.Knowledge.Isolation
import Atlas.Persistence.FtsQuery

/-! The two stores behind the read interface, and what a query of either depends on. It returns readable
    entities only, and it is a function of the readable part of what is stored (`query_congr`): in memory by
    the filter that comes first, in the durable store by the access predicate, which lets nothing else into
    a ranking, or, on the full-text path, by the re-filter. Only an approximate vector index stands apart:
    it filters what it has found, so which readable rows it hands out may depend on others. -/

namespace Atlas

open Text InMemoryKnowledgeGraph

/-- What `make_knowledge_graph` builds: the stub, or the durable store with or without an embedder. -/
inductive KnowledgeBackend (V D S : Type) where
  | memory (rt : TextRuntime) (graph : InMemoryKnowledgeGraph)
  | postgres (rt : TextRuntime) (db : Database V D) (sc : Scores S) (policy : PolicyStore)
      (embedder : Option (String → Except PyError V)) (table : KgTable V)

namespace KnowledgeBackend
variable {V D S : Type}

/-- The store behind the interface the planner uses. -/
def toKnowledgeGraph : KnowledgeBackend V D S → KnowledgeGraph
  | memory rt graph => graph.toKnowledgeGraph rt
  | postgres rt db sc policy embedder table =>
    ⟨fun principal text limit =>
      postgresQuery db sc policy principal rt embedder text limit.toNat table⟩

/-- The policy that governs reading. -/
def policy : KnowledgeBackend V D S → PolicyStore
  | memory _ graph => graph.policy.getD DEFAULT_POLICY
  | postgres _ _ _ policy _ _ => policy

/-- What the documented order of SQL and of the role table gives: ids are ordered under the collation, and
    where there is an embedder no role permission is an identity string. -/
def Regular (principal : Option Principal) : KnowledgeBackend V D S → Prop
  | memory _ _ => True
  | postgres _ db _ policy embedder _ =>
    IdOrder db.idLe ∧ (embedder.isSome = true → NoIdentityGrant policy principal)

/-- Two stores of one kind, with the same readable content in the same order. What an approximate index hands
    out may depend on rows the query does not select, so with an embedder it is to be the same from both. -/
def Agree (principal : Option Principal) : KnowledgeBackend V D S → KnowledgeBackend V D S → Prop
  | memory rt graph, memory rt' graph' =>
    rt = rt' ∧ graph.policy = graph'.policy ∧
      graph.entities.values.filter (fun e => canRead principal e graph.policy) =
        graph'.entities.values.filter (fun e => canRead principal e graph.policy)
  | postgres rt db sc policy embedder table, postgres rt' db' sc' policy' embedder' table' =>
    rt = rt' ∧ db = db' ∧ sc = sc' ∧ policy = policy' ∧ embedder = embedder' ∧
      table.rows.filter (fun row => readableBy policy principal (rowToEntity row)) =
        table'.rows.filter (fun row => readableBy policy principal (rowToEntity row)) ∧
      (embedder.isSome = true → ∀ text qvec limit,
        vectorEntities db (baseParams rt policy principal text) qvec limit table =
          vectorEntities db (baseParams rt policy principal text) qvec limit table')
  | _, _ => False

end KnowledgeBackend

/-! ### Queries return readable entities -/

section readable
variable {V D S : Type} {db : Database V D} {sc : Scores S} {policy : PolicyStore}
  {principal : Option Principal} {rt : TextRuntime} {text : String} {limit : ℕ} {table : KgTable V}

theorem readable_of_mem_ftsQuery {texts : List String} {rows result : List Entity} {e : Entity}
    (hlimit : 1 ≤ limit) (h : ftsQuery (readableBy policy principal) texts rows limit = .ok result)
    (he : e ∈ result) : readableBy policy principal e = true := by
  rw [ftsQuery_eq (executable_of_ftsQuery hlimit h) _ _ hlimit] at h
  cases h
  exact (List.mem_filter.mp (List.mem_of_mem_take he)).2

theorem readable_of_mem_hybridFuse {qvec : V} {params : BaseParams} {result : List Entity} {e : Entity}
    (hlimit : 1 ≤ limit)
    (h : hybridFuse sc (readableBy policy principal) params.texts (ftsEntities db params table)
      (vectorEntities db params qvec limit table) limit = .ok result) (he : e ∈ result) :
    readableBy policy principal e = true := by
  have hexec := executable_of_hybridFuse hlimit h
  by_cases hrows : ftsEntities db params table = []
  · rw [hrows, hybridFuse_nil hexec hlimit] at h
    cases h
    exact absurd he List.not_mem_nil
  · have hreturns : ∃ selected, hybridFuse sc (readableBy policy principal) params.texts
        (ftsEntities db params table) (vectorEntities db params qvec limit table) limit = .ok selected ∧ _ :=
      hybridFuse_selected hexec idsUnique_fts hrows hlimit
    obtain ⟨selected, hfuse, hselected⟩ := hreturns
    cases hfuse.symm.trans h
    exact (hselected.sound e he).2

theorem readable_of_mem_postgresQuery {embedder : Option (String → Except PyError V)}
    {result : List Entity} {e : Entity} (hlimit : 1 ≤ limit)
    (h : postgresQuery db sc policy principal rt embedder text limit table = .ok result) (he : e ∈ result) :
    readableBy policy principal e = true := by
  cases embedder with
  | none => exact readable_of_mem_ftsQuery hlimit h he
  | some embedOne =>
    simp only [postgresQuery] at h
    split at h
    · exact readable_of_mem_ftsQuery hlimit h he
    · simp only [hybridQuery] at h
      split at h
      · exact readable_of_mem_ftsQuery hlimit h he
      · obtain ⟨candidates, hexec, h⟩ := Fallible.bind_eq_ok.mp h
        obtain ⟨-, rfl⟩ := execute_eq_ok.mp hexec
        split at h
        · exact readable_of_mem_hybridFuse hlimit h he
        · exact readable_of_mem_ftsQuery hlimit h he

/-- Nothing is retrieved that the principal may not read. -/
theorem KnowledgeBackend.readable_of_mem_query {b : KnowledgeBackend V D S} {limit : ℤ}
    {result : List Entity} {e : Entity} (hlimit : 1 ≤ limit)
    (h : b.toKnowledgeGraph.query principal text limit = .ok result) (he : e ∈ result) :
    canRead principal e (some b.policy) = true := by
  cases b with
  | memory rt graph =>
    cases h
    have hread := (InMemoryKnowledgeGraph.readable_of_mem_query he).2
    rwa [canRead] at hread ⊢
  | postgres rt db sc policy embedder table =>
    exact readable_of_mem_postgresQuery (by omega) h he

end readable

/-! ### Queries depend on readable entities only -/

section congruence
variable {V D S : Type} {db : Database V D} {policy : PolicyStore} {principal : Option Principal}
  {params : BaseParams} {table table' : KgTable V}

/-- A filter that only lets readable rows through does not see the others. -/
theorem filter_rows_congr {selects readable : KgRow V → Bool}
    (hsel : ∀ row, selects row = true → readable row = true)
    (hsame : table.rows.filter readable = table'.rows.filter readable) :
    table.rows.filter selects = table'.rows.filter selects := by
  have hpart : ∀ rows : List (KgRow V), rows.filter selects = (rows.filter readable).filter selects := by
    intro rows
    rw [List.filter_filter]
    refine List.filter_congr fun row _ => ?_
    cases hrow : selects row with
    | false => rfl
    | true => rw [hsel row hrow]; rfl
  rw [hpart, hsame, ← hpart]

/-- The readable rows of the full-text branch are those of the readable rows of the table. -/
theorem filter_ftsEntities_congr (hid : IdOrder db.idLe)
    (hsame : table.rows.filter (fun row => readableBy policy principal (rowToEntity row)) =
      table'.rows.filter (fun row => readableBy policy principal (rowToEntity row))) :
    (ftsEntities db params table).filter (readableBy policy principal) =
      (ftsEntities db params table').filter (readableBy policy principal) := by
  rw [filter_ftsEntities hid, filter_ftsEntities hid, visibleRows, visibleRows]
  have hvisible : table.rows.filter (visible db policy principal params) =
      table'.rows.filter (visible db policy principal params) := by
    refine filter_rows_congr (fun row hrow => ?_) hsame
    rw [visible, Bool.and_eq_true] at hrow
    exact hrow.2
  rw [hvisible]

theorem ftsQuery_congr {texts : List String} (hid : IdOrder db.idLe) {limit : ℕ} (hlimit : 1 ≤ limit)
    (hsame : table.rows.filter (fun row => readableBy policy principal (rowToEntity row)) =
      table'.rows.filter (fun row => readableBy policy principal (rowToEntity row))) :
    ftsQuery (readableBy policy principal) texts (ftsEntities db params table) limit =
      ftsQuery (readableBy policy principal) texts (ftsEntities db params table') limit := by
  cases hexec : execute texts limit () with
  | error error => rw [ftsQuery_raises hexec hlimit, ftsQuery_raises hexec hlimit]
  | ok _ =>
    have htaken := (execute_eq_ok.mp hexec).1
    rw [ftsQuery_eq htaken _ _ hlimit, ftsQuery_eq htaken _ _ hlimit, filter_ftsEntities_congr hid hsame]

/-- A row that passes the access predicate is readable, where no role permission is an identity string. -/
theorem readable_of_rbacPredicate (hno : NoIdentityGrant policy principal) {row : KgRow V}
    (h : rbacPredicate (rbacParams policy principal) row.acl = true) :
    readableBy policy principal (rowToEntity row) = true := by
  rwa [rbacPredicate_eq_canRead hno] at h

/-- Without identity grants the full-text statement selects among the readable rows. -/
theorem ftsEntities_congr (db : Database V D) (rt : TextRuntime) (text : String)
    (hno : NoIdentityGrant policy principal)
    (hsame : table.rows.filter (fun row => readableBy policy principal (rowToEntity row)) =
      table'.rows.filter (fun row => readableBy policy principal (rowToEntity row))) :
    ftsEntities db (baseParams rt policy principal text) table =
      ftsEntities db (baseParams rt policy principal text) table' := by
  rw [ftsEntities, ftsEntities, ftsRows, ftsRows, filter_rows_congr (fun row hrow => ?_) hsame]
  rw [ftsSelects, Bool.and_eq_true] at hrow
  exact readable_of_rbacPredicate hno hrow.1

/-- The index of the vector column is not used: the statement sorts all rows it selects. -/
def ExactScan (db : Database V D) : Prop := db.scan = exactScan db.distance db.distanceLe

/-- So does the vector statement, where it sorts all rows it selects. -/
theorem vectorEntities_congr (hexact : ExactScan db) (rt : TextRuntime) (text : String)
    (hno : NoIdentityGrant policy principal)
    (hsame : table.rows.filter (fun row => readableBy policy principal (rowToEntity row)) =
      table'.rows.filter (fun row => readableBy policy principal (rowToEntity row))) (qvec : V) (limit : ℕ) :
    vectorEntities db (baseParams rt policy principal text) qvec limit table =
      vectorEntities db (baseParams rt policy principal text) qvec limit table' := by
  rw [vectorEntities, vectorEntities, vectorRows, vectorRows, hexact, exactScan, exactScan,
    filter_rows_congr (fun row hrow => ?_) hsame]
  rw [vectorSelects, Bool.and_eq_true] at hrow
  exact readable_of_rbacPredicate hno hrow.1

theorem memoryQuery_congr {rt : TextRuntime} {graph graph' : InMemoryKnowledgeGraph}
    (hpolicy : graph.policy = graph'.policy)
    (hvalues : graph.entities.values.filter (fun e => canRead principal e graph.policy) =
      graph'.entities.values.filter (fun e => canRead principal e graph.policy)) (text : String) (limit : ℤ) :
    graph.query rt principal text limit = graph'.query rt principal text limit := by
  have hquery : ∀ g : InMemoryKnowledgeGraph, g.policy = graph.policy →
      g.query rt principal text limit = sliceTo limit
        ((g.entities.values.filter (fun e => canRead principal e graph.policy)).filter fun e =>
          (split (rt.lower text)).isEmpty || (split (rt.lower text)).any
            (occursIn · (rt.lower (e.name ++ "\n" ++ e.content)))) := by
    intro g hg
    simp only [InMemoryKnowledgeGraph.query, List.filter_filter, hg, Bool.and_comm]
  calc graph.query rt principal text limit
      = sliceTo limit ((graph.entities.values.filter (fun e => canRead principal e graph.policy)).filter _) :=
        hquery graph rfl
    _ = sliceTo limit ((graph'.entities.values.filter (fun e => canRead principal e graph.policy)).filter _) := by
        rw [hvalues]
    _ = graph'.query rt principal text limit := (hquery graph' hpolicy.symm).symm

/-- A query is a function of what its principal may read: what else is stored, and where it would rank, makes
    no difference to the answer, nor to the error where there is one. -/
theorem KnowledgeBackend.query_congr {b b' : KnowledgeBackend V D S} (hb : b.Regular principal)
    (hsame : b.Agree principal b') (text : String) {limit : ℤ} (hlimit : 1 ≤ limit) :
    b.toKnowledgeGraph.query principal text limit = b'.toKnowledgeGraph.query principal text limit := by
  cases b with
  | memory rt graph =>
    cases b' with
    | postgres => exact hsame.elim
    | memory rt' graph' =>
      obtain ⟨rfl, hpolicy, hvalues⟩ := hsame
      exact congrArg Except.ok (memoryQuery_congr hpolicy hvalues text limit)
  | postgres rt db sc policy embedder table =>
    cases b' with
    | memory => exact hsame.elim
    | postgres rt' db' sc' policy' embedder' table' =>
      obtain ⟨rfl, rfl, rfl, rfl, rfl, hrows, hcandidates⟩ := hsame
      obtain ⟨hid, hno⟩ := hb
      have hnat : 1 ≤ limit.toNat := by omega
      cases embedder with
      | none => exact ftsQuery_congr hid hnat hrows
      | some embedOne =>
        simp only [toKnowledgeGraph, postgresQuery, hybridQuery, ftsEntities_congr db rt text (hno rfl) hrows,
          hcandidates rfl text]

end congruence

/-! ### Somebody else's row -/

/-- The shared rows without the note of the other user. -/
def publicTable : KgTable ℕ where
  rows := [⟨"n1", "doc", "budget", "plan", some [], .org, none⟩,
    ⟨"n3", "doc", "budget", "report", some [], .org, none⟩]
  nodup := by decide

def budgetStore (table : KgTable ℕ) : KnowledgeBackend ℕ ℕ ℚ :=
  .postgres ⟨id, id⟩ wordDatabase ratScores DEFAULT_POLICY (some fun _ => .ok 4) table

theorem regular_budgetStore (table : KgTable ℕ) : (budgetStore table).Regular none := by
  refine ⟨wordDatabase_idOrder, fun _ p hp => ?_⟩
  cases hp

theorem wordDatabase_exactScan : ExactScan wordDatabase := rfl

theorem agree_budgetStore : (budgetStore sharedTable).Agree none (budgetStore publicTable) := by
  have hrows : sharedTable.rows.filter (fun row => readableBy DEFAULT_POLICY none (rowToEntity row)) =
      publicTable.rows.filter (fun row => readableBy DEFAULT_POLICY none (rowToEntity row)) := rfl
  refine ⟨rfl, rfl, rfl, rfl, rfl, hrows, fun _ text qvec limit => ?_⟩
  have hno := (regular_budgetStore sharedTable).2 rfl
  exact vectorEntities_congr wordDatabase_exactScan ⟨id, id⟩ text hno hrows qvec limit

/-- Nobody in particular asks, and gets the same answer with the note and without. -/
theorem query_congr_shared :
    (budgetStore sharedTable).toKnowledgeGraph.query none "budget" 2 =
      (budgetStore publicTable).toKnowledgeGraph.query none "budget" 2 :=
  KnowledgeBackend.query_congr (regular_budgetStore sharedTable) agree_budgetStore "budget" (by decide)

end Atlas
