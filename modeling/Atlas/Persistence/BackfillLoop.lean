import Atlas.Lib.Batches
import Atlas.Persistence.Embeddings

/-! One backfill without concurrent writers. Each round selects rows without embedding, embeds their texts
    in one call and updates them row by row on one pooled connection. A connection that commits every
    statement keeps the updates of a round that fails later; one that opens a transaction takes them back. -/

namespace Atlas

open Batches

variable {V : Type}

/-! ### The loop -/

/-- What a backfill runs against: which rows without embedding a LIMIT query finds, what the vector column
    raises for a vector it does not take, and whether the connections of the pool commit every statement. -/
structure BackfillDatabase (V : Type) where
  scan : Scan (KgRow V)
  refusal : V → Option PyError
  autocommit : Bool

/-- The answers of `embed`, call by call. -/
abbrev Embedder (V : Type) : Type := ℕ → List String → Except PyError (List V)

/-- What `zip` raises under `strict`. -/
def zipError (outcome : String) : PyError :=
  ⟨"ValueError", "zip() argument 2 is " ++ outcome ++ " than argument 1"⟩

/-- The updates of a batch, one statement after the other. -/
def updateRows (db : BackfillDatabase V) :
    List (KgRow V) → List V → KgTable V → Except PyError Unit × KgTable V
  | [], [], table => (.ok (), table)
  | [], _ :: _, table => (.error (zipError "longer"), table)
  | _ :: _, [], table => (.error (zipError "shorter"), table)
  | row :: rows, vector :: vectors, table =>
    match db.refusal vector with
    | some e => (.error e, table)
    | none => updateRows db rows vectors (setEmbedding table row.id vector)

/-- `with self._pool.connection() as conn`: on an error the connection rolls back what is not committed. -/
def writeBatch (db : BackfillDatabase V) (rows : List (KgRow V)) (vectors : List V) (table : KgTable V) :
    Except PyError Unit × KgTable V :=
  match updateRows db rows vectors table with
  | (.ok (), written) => (.ok (), written)
  | (.error e, written) => (.error e, if db.autocommit then written else table)

/-- The loop from a round on, for at most `fuel` rounds. -/
def backfillLoop (db : BackfillDatabase V) (embedder : Embedder V) :
    ℕ → ℕ → KgTable V → Option (Except PyError Unit × KgTable V)
  | 0, _, _ => none
  | fuel + 1, n, table =>
    let rows := db.scan.take BACKFILL_BATCH n (nullRows table)
    if rows.isEmpty then some (.ok (), table)
    else
      match embedder n (rows.map KgRow.text) with
      | .error e => some (.error e, table)
      | .ok vectors =>
        match writeBatch db rows vectors table with
        | (.error e, table) => some (.error e, table)
        | (.ok (), table) => backfillLoop db embedder fuel (n + 1) table

/-- `_backfill_null_embeddings`. -/
def backfillNullEmbeddings (db : BackfillDatabase V) (embedder : Option (Embedder V)) (fuel : ℕ)
    (table : KgTable V) : Option (Except PyError Unit × KgTable V) :=
  match embedder with
  | none => some (.ok (), table)
  | some embedder => backfillLoop db embedder fuel 0 table

/-! ### What a backfill does -/

section spec
variable (db : BackfillDatabase V) (embedder : Embedder V) (table : KgTable V)

/-- The backfill comes to an end, with a result and a table. -/
def BackfillReturns (result : Except PyError Unit) (table' : KgTable V) : Prop :=
  ∃ fuel, backfillNullEmbeddings db (some embedder) fuel table = some (result, table')

/-- The rows of a round, if all rounds before it were completed. -/
def batchRows (n : ℕ) : List (KgRow V) := batch db.scan KgRow.id BACKFILL_BATCH (nullRows table) n

/-- The answer of the embedder in a round. -/
def answer (n : ℕ) : Except PyError (List V) := embedder n ((batchRows db table n).map KgRow.text)

/-- A round is completed: one vector for every row, and the column takes them all. -/
def Completes (n : ℕ) : Prop :=
  ∃ vectors, answer db embedder table n = .ok vectors ∧ vectors.length = (batchRows db table n).length ∧
    ∀ vector ∈ vectors, db.refusal vector = none

/-- The backfill gets to a round and finds rows in it. -/
def Reaches (n : ℕ) : Prop := batchRows db table n ≠ [] ∧ ∀ m < n, Completes db embedder table m

/-- In a round the embedder raises or returns a different number of vectors. -/
def Fails (n : ℕ) : Prop :=
  (∃ e, answer db embedder table n = .error e) ∨
    ∃ vectors, answer db embedder table n = .ok vectors ∧ vectors.length ≠ (batchRows db table n).length

/-- A row of a round, and the same row with the vector in its place of the answer. -/
def FilledIn (n : ℕ) (row row' : KgRow V) : Prop :=
  ∃ vectors vector, answer db embedder table n = .ok vectors ∧
    (row, vector) ∈ (batchRows db table n).zip vectors ∧ row' = { row with embedding := some vector }

/-- With an embedder that answers every round, the backfill ends and fills the rows without embedding, each
    with the vector of its own text, and nothing else; where the embedder fails, the backfill raises and
    has filled rows of completed rounds only. -/
structure Backfills : Prop where
  fills : (∀ n, batchRows db table n ≠ [] → Completes db embedder table n) →
    ∃ table', BackfillReturns db embedder table (.ok ()) table' ∧ nullRows table' = [] ∧
      List.Forall₂ (fun row row' => (row.embedding = none → ∃ n, FilledIn db embedder table n row row') ∧
        (row.embedding ≠ none → row' = row)) table.rows table'.rows
  raises : ∀ n, Reaches db embedder table n → Fails db embedder table n →
    ∃ e table', BackfillReturns db embedder table (.error e) table' ∧
      List.Forall₂ (fun row row' => row' = row ∨ ∃ m < n, FilledIn db embedder table m row row')
        table.rows table'.rows

/-- A round that fails on the number of vectors writes none of them: none is there, or the column refuses
    the first. -/
def NoneLands : Prop :=
  ∀ n, Reaches db embedder table n → ∀ vectors, answer db embedder table n = .ok vectors →
    vectors.length ≠ (batchRows db table n).length →
      ∀ vector, vectors.head? = some vector → db.refusal vector ≠ none

end spec

variable {db : BackfillDatabase V} {embedder : Embedder V} {table : KgTable V} {n : ℕ}

/-! ### Updates -/

/-- Write vectors under the ids of rows. -/
def writeVectors (table : KgTable V) (pairs : List (KgRow V × V)) : KgTable V :=
  pairs.foldl (fun table p => setEmbedding table p.1.id p.2) table

/-- What the writes make of one row. -/
def fill (pairs : List (KgRow V × V)) (row : KgRow V) : KgRow V :=
  pairs.foldl (fun row p => if row.id = p.1.id then { row with embedding := some p.2 } else row) row

section updates
variable {pairs : List (KgRow V × V)} {rows : List (KgRow V)} {vectors : List V} {row : KgRow V}

theorem rows_writeVectors (table : KgTable V) (pairs : List (KgRow V × V)) :
    (writeVectors table pairs).rows = table.rows.map (fill pairs) := by
  induction pairs generalizing table with
  | nil => exact (List.map_id _).symm
  | cons p pairs ih =>
    calc (writeVectors table (p :: pairs)).rows
      _ = (writeVectors (setEmbedding table p.1.id p.2) pairs).rows := rfl
      _ = (setEmbedding table p.1.id p.2).rows.map (fill pairs) := ih _
      _ = table.rows.map (fill (p :: pairs)) := List.map_map

theorem fill_of_not_mem (h : row.id ∉ pairs.map (·.1.id)) : fill pairs row = row := by
  induction pairs with
  | nil => rfl
  | cons p pairs ih =>
    rw [List.map_cons, List.mem_cons, not_or] at h
    rw [fill, List.foldl_cons, if_neg h.1]
    exact ih h.2

/-- A row under one of the ids gets a vector of that id. -/
theorem fill_of_mem (h : row.id ∈ pairs.map (·.1.id)) :
    ∃ p ∈ pairs, p.1.id = row.id ∧ fill pairs row = { row with embedding := some p.2 } := by
  induction pairs generalizing row with
  | nil => simp at h
  | cons p pairs ih =>
    rw [fill, List.foldl_cons, ← fill]
    by_cases hrest : row.id ∈ pairs.map (·.1.id)
    · -- a later write replaces the vector of this one
      split
      next =>
        have hsame : KgRow.id { row with embedding := some p.2 } ∈ pairs.map (·.1.id) := hrest
        obtain ⟨q, hq, hid, hfill⟩ := ih hsame
        exact ⟨q, List.mem_cons_of_mem p hq, hid, hfill⟩
      next =>
        obtain ⟨q, hq, hid, hfill⟩ := ih hrest
        exact ⟨q, List.mem_cons_of_mem p hq, hid, hfill⟩
    · have hid : row.id = p.1.id := by simpa [hrest] using h
      rw [if_pos hid]
      exact ⟨p, List.mem_cons_self, hid.symm, fill_of_not_mem hrest⟩

theorem isNone_fill (pairs : List (KgRow V × V)) (row : KgRow V) : (fill pairs row).embedding.isNone =
    (decide (row.id ∉ pairs.map (·.1.id)) && row.embedding.isNone) := by
  by_cases h : row.id ∈ pairs.map (·.1.id)
  · obtain ⟨p, -, -, hfill⟩ := fill_of_mem h
    rw [hfill, decide_eq_false (not_not_intro h)]
    rfl
  · rw [fill_of_not_mem h, decide_eq_true h, Bool.true_and]

/-- What is left without embedding. -/
theorem nullRows_writeVectors (table : KgTable V) (pairs : List (KgRow V × V)) :
    nullRows (writeVectors table pairs) =
      (nullRows table).filter (fun row => row.id ∉ pairs.map (·.1.id)) := by
  rw [nullRows, rows_writeVectors, List.filter_map, nullRows, List.filter_filter]
  have htest : (fun row : KgRow V => row.embedding.isNone) ∘ fill pairs =
      fun row => decide (row.id ∉ pairs.map (·.1.id)) && row.embedding.isNone :=
    funext (isNone_fill pairs)
  rw [htest]
  -- the rows that pass the test are those that no write changes
  refine (List.map_congr_left fun row hrow => ?_).trans (List.map_id _)
  have hnot : row.id ∉ pairs.map (·.1.id) := by
    simpa using (Bool.and_eq_true_iff.mp (List.mem_filter.mp hrow).2).1
  exact fill_of_not_mem hnot

/-- The updates that take place. -/
def landed (db : BackfillDatabase V) (rows : List (KgRow V)) (vectors : List V) : List (KgRow V × V) :=
  (rows.zip vectors).takeWhile (fun p => (db.refusal p.2).isNone)

theorem updateRows_eq (db : BackfillDatabase V) (rows : List (KgRow V)) (vectors : List V)
    (table : KgTable V) : ∃ result,
      updateRows db rows vectors table = (result, writeVectors table (landed db rows vectors)) ∧
      (result = .ok () ↔ vectors.length = rows.length ∧ ∀ vector ∈ vectors, db.refusal vector = none) := by
  induction rows generalizing vectors table with
  | nil =>
    cases vectors with
    | nil => exact ⟨.ok (), rfl, by simp⟩
    | cons vector vectors => exact ⟨_, rfl, by simp⟩
  | cons row rows ih =>
    cases vectors with
    | nil => exact ⟨_, rfl, by simp⟩
    | cons vector vectors =>
      cases hrefusal : db.refusal vector with
      | some e => exact ⟨.error e, by simp [updateRows, landed, hrefusal, writeVectors], by simp [hrefusal]⟩
      | none =>
        obtain ⟨result, heq, hok⟩ := ih vectors (setEmbedding table row.id vector)
        refine ⟨result, ?_, by simp [hok, hrefusal]⟩
        simp [updateRows, landed, hrefusal, heq, writeVectors]

/-- With one vector that the column takes for every row, all updates take place. -/
theorem writeBatch_of_completes (hlen : vectors.length = rows.length)
    (hfits : ∀ vector ∈ vectors, db.refusal vector = none) (table : KgTable V) :
    writeBatch db rows vectors table = (.ok (), writeVectors table (rows.zip vectors)) := by
  obtain ⟨result, heq, hok⟩ := updateRows_eq db rows vectors table
  have hall : landed db rows vectors = rows.zip vectors := by
    refine List.takeWhile_eq_self_iff.mpr fun p hp => ?_
    rw [hfits p.2 (List.of_mem_zip hp).2, Option.isNone_none]
  rw [writeBatch, heq, hok.mpr ⟨hlen, hfits⟩, hall]

/-- Otherwise it raises, and what took place stays where every statement is committed. -/
theorem writeBatch_of_not_completes
    (h : ¬(vectors.length = rows.length ∧ ∀ vector ∈ vectors, db.refusal vector = none))
    (table : KgTable V) : ∃ e, writeBatch db rows vectors table =
      (.error e, if db.autocommit then writeVectors table (landed db rows vectors) else table) := by
  obtain ⟨result, heq, hok⟩ := updateRows_eq db rows vectors table
  cases result with
  | ok => exact absurd (hok.mp rfl) h
  | error e => exact ⟨e, by rw [writeBatch, heq]⟩

end updates

/-! ### Rounds -/

/-- The table after `n` completed rounds. -/
structure AfterRounds (db : BackfillDatabase V) (embedder : Embedder V) (table : KgTable V) (n : ℕ)
    (current : KgTable V) : Prop where
  null : nullRows current = pending db.scan KgRow.id BACKFILL_BATCH (nullRows table) n
  rows : ∃ f : KgRow V → KgRow V, current.rows = table.rows.map f ∧ ∀ row ∈ table.rows,
    (f row = row ∧ ∀ m < n, row ∉ batchRows db table m) ∨
      ∃ m < n, FilledIn db embedder table m row (f row)

section rounds
variable {current : KgTable V} {vectors : List V} {row row' : KgRow V}

theorem nodup_nullRows (table : KgTable V) : ((nullRows table).map KgRow.id).Nodup :=
  table.nodup.sublist (List.filter_sublist.map _)

theorem mem_table_of_mem_batchRows (h : row ∈ batchRows db table n) :
    row ∈ table.rows ∧ row.embedding = none := by
  simpa [nullRows] using mem_of_mem_batch h

theorem FilledIn.mem (h : FilledIn db embedder table n row row') : row ∈ batchRows db table n := by
  obtain ⟨vectors, vector, -, hzip, -⟩ := h
  exact (List.of_mem_zip hzip).1

theorem FilledIn.id_eq (h : FilledIn db embedder table n row row') : row'.id = row.id := by
  obtain ⟨vectors, vector, -, -, rfl⟩ := h
  rfl

/-- A row of the table under an id of a batch is in the batch. -/
theorem mem_batchRows_of_id (hrow : row ∈ table.rows)
    (hid : row.id ∈ (batchRows db table n).map KgRow.id) : row ∈ batchRows db table n := by
  obtain ⟨b, hb, heq⟩ := List.mem_map.mp hid
  rwa [← Table.eq_of_key (mem_table_of_mem_batchRows hb).1 hrow heq]

theorem afterRounds_zero : AfterRounds db embedder table 0 table where
  null := rfl
  rows := ⟨id, (List.map_id _).symm, fun _ _ => Or.inl ⟨rfl, fun m hm => absurd hm (Nat.not_lt_zero m)⟩⟩

section zip
variable (hlen : vectors.length = (batchRows db table n).length)
include hlen

theorem ids_zip : ((batchRows db table n).zip vectors).map (·.1.id) = (batchRows db table n).map KgRow.id :=
  calc ((batchRows db table n).zip vectors).map (·.1.id)
    _ = (((batchRows db table n).zip vectors).map Prod.fst).map KgRow.id := List.map_map.symm
    _ = (batchRows db table n).map KgRow.id := by rw [List.map_fst_zip hlen.ge]

/-- The updates of a round fill its rows. -/
theorem filledIn_fill (hanswer : answer db embedder table n = .ok vectors)
    (hmem : row ∈ batchRows db table n) :
    FilledIn db embedder table n row (fill ((batchRows db table n).zip vectors) row) := by
  obtain ⟨p, hp, hid, hfill⟩ := fill_of_mem (ids_zip hlen ▸ List.mem_map_of_mem hmem)
  have hp1 : p.1 = row := Table.eq_of_key
    (mem_table_of_mem_batchRows (List.of_mem_zip hp).1).1 (mem_table_of_mem_batchRows hmem).1 hid
  exact ⟨vectors, p.2, hanswer, hp1 ▸ hp, hfill⟩

/-- They leave what stands under the id of another row. -/
theorem fill_of_not_mem_batchRows (hrow : row ∈ table.rows) (hnot : row ∉ batchRows db table n)
    (hid : row'.id = row.id) : fill ((batchRows db table n).zip vectors) row' = row' := by
  refine fill_of_not_mem fun hmem => hnot (mem_batchRows_of_id hrow ?_)
  rwa [ids_zip hlen, hid] at hmem

/-- A completed round fills its rows and leaves the others. -/
theorem AfterRounds.succ (h : AfterRounds db embedder table n current)
    (hanswer : answer db embedder table n = .ok vectors) :
    AfterRounds db embedder table (n + 1)
      (writeVectors current ((batchRows db table n).zip vectors)) := by
  constructor
  · rw [nullRows_writeVectors, h.null, ids_zip hlen]
    rfl
  · obtain ⟨f, hf, hrows⟩ := h.rows
    refine ⟨fill ((batchRows db table n).zip vectors) ∘ f, by rw [rows_writeVectors, hf, List.map_map], ?_⟩
    intro row hrow
    rw [Function.comp_apply]
    rcases hrows row hrow with ⟨hsame, hearlier⟩ | ⟨m, hm, hfilled⟩
    · rw [hsame]
      by_cases hmem : row ∈ batchRows db table n
      · exact Or.inr ⟨n, Nat.lt_succ_self n, filledIn_fill hlen hanswer hmem⟩
      · refine Or.inl ⟨fill_of_not_mem_batchRows hlen hrow hmem rfl, fun m hm => ?_⟩
        rcases Nat.lt_succ_iff_lt_or_eq.mp hm with hm | rfl
        · exact hearlier m hm
        · exact hmem
    · -- the row was taken in an earlier round
      rw [fill_of_not_mem_batchRows hlen hrow (not_mem_batch hfilled.mem hm) hfilled.id_eq]
      exact Or.inr ⟨m, Nat.lt_succ_of_lt hm, hfilled⟩

end zip

theorem forall₂_rows_iff {R : KgRow V → KgRow V → Prop} {f : KgRow V → KgRow V}
    (hf : current.rows = table.rows.map f) :
    List.Forall₂ R table.rows current.rows ↔ ∀ row ∈ table.rows, R row (f row) := by
  rw [hf, List.forall₂_map_right_iff, List.forall₂_same]

end rounds

/-! ### Runs -/

section runs
variable {current : KgTable V} {vectors : List V}

/-- After the last row the loop ends. -/
theorem loop_done (h : AfterRounds db embedder table n current) (hnil : batchRows db table n = [])
    (fuel : ℕ) : backfillLoop db embedder (fuel + 1) n current = some (.ok (), current) := by
  have hrows : db.scan.take BACKFILL_BATCH n (nullRows current) = [] := by rw [h.null]; exact hnil
  simp [backfillLoop, hrows]

/-- A round with rows embeds their texts and writes the batch. -/
theorem loop_round (h : AfterRounds db embedder table n current) (hne : batchRows db table n ≠ [])
    (fuel : ℕ) : backfillLoop db embedder (fuel + 1) n current =
      match answer db embedder table n with
      | .error e => some (.error e, current)
      | .ok vectors =>
        match writeBatch db (batchRows db table n) vectors current with
        | (.error e, table) => some (.error e, table)
        | (.ok (), table) => backfillLoop db embedder fuel (n + 1) table := by
  have hrows : db.scan.take BACKFILL_BATCH n (nullRows current) = batchRows db table n := by
    rw [h.null]
    rfl
  rw [backfillLoop, hrows]
  simp [hne, answer]

/-- An error of the embedder ends the loop before any update. -/
theorem loop_raises (h : AfterRounds db embedder table n current) (hne : batchRows db table n ≠ [])
    {e : PyError} (hanswer : answer db embedder table n = .error e) (fuel : ℕ) :
    backfillLoop db embedder (fuel + 1) n current = some (.error e, current) := by
  rw [loop_round h hne, hanswer]

/-- So does an answer that is not one vector of the column for every row, but the updates before it stay
    where every statement is committed. -/
theorem loop_mismatch (h : AfterRounds db embedder table n current) (hne : batchRows db table n ≠ [])
    (hanswer : answer db embedder table n = .ok vectors)
    (hnot : ¬(vectors.length = (batchRows db table n).length ∧
      ∀ vector ∈ vectors, db.refusal vector = none)) (fuel : ℕ) :
    ∃ e, backfillLoop db embedder (fuel + 1) n current = some (.error e,
      if db.autocommit then writeVectors current (landed db (batchRows db table n) vectors)
      else current) := by
  obtain ⟨e, hwrite⟩ := writeBatch_of_not_completes hnot current
  exact ⟨e, by rw [loop_round h hne, hanswer]; simp only [hwrite]⟩

/-- The loop gets through the rounds that are completed. -/
theorem loop_reaches (h : ∀ m < n, batchRows db table m ≠ [] ∧ Completes db embedder table m) :
    ∃ current, AfterRounds db embedder table n current ∧ ∀ fuel,
      backfillLoop db embedder (n + fuel) 0 table = backfillLoop db embedder fuel n current := by
  induction n with
  | zero => exact ⟨table, afterRounds_zero, fun fuel => by rw [Nat.zero_add]⟩
  | succ n ih =>
    obtain ⟨current, hafter, hloop⟩ := ih (fun m hm => h m (Nat.lt_succ_of_lt hm))
    obtain ⟨hne, vectors, hanswer, hlen, hfits⟩ := h n (Nat.lt_succ_self n)
    refine ⟨_, hafter.succ hlen hanswer, fun fuel => ?_⟩
    calc backfillLoop db embedder (n + 1 + fuel) 0 table
      _ = backfillLoop db embedder (n + (fuel + 1)) 0 table := by rw [Nat.add_right_comm, Nat.add_assoc]
      _ = backfillLoop db embedder (fuel + 1) n current := hloop (fuel + 1)
      _ = backfillLoop db embedder fuel (n + 1)
            (writeVectors current ((batchRows db table n).zip vectors)) := by
          rw [loop_round hafter hne, hanswer]
          simp only [writeBatch_of_completes hlen hfits]

/-- The fuel does not matter to the result. -/
theorem loop_unique {fuel fuel' : ℕ} {r r' : Except PyError Unit × KgTable V}
    (h : backfillLoop db embedder fuel n table = some r)
    (h' : backfillLoop db embedder fuel' n table = some r') : r = r' := by
  induction fuel generalizing fuel' n table with
  | zero => cases h
  | succ fuel ih =>
    cases fuel' with
    | zero => cases h'
    | succ fuel' =>
      simp only [backfillLoop] at h h'
      split at h
      next hrows =>
        rw [if_pos hrows] at h'
        exact Option.some.inj (h.symm.trans h')
      next hrows =>
        rw [if_neg hrows] at h'
        split at h
        next e hembed =>
          simp only [hembed] at h'
          exact Option.some.inj (h.symm.trans h')
        next vectors hembed =>
          simp only [hembed] at h'
          split at h
          next e written hwrite =>
            simp only [hwrite] at h'
            exact Option.some.inj (h.symm.trans h')
          next written hwrite =>
            simp only [hwrite] at h'
            exact ih h h'

/-- A result of the loop after completed rounds is the result of the backfill. -/
theorem returns_of_loop (hloop : ∀ fuel,
      backfillLoop db embedder (n + fuel) 0 table = backfillLoop db embedder fuel n current)
    {result : Except PyError Unit} {table' : KgTable V} {fuel : ℕ}
    (h : backfillLoop db embedder fuel n current = some (result, table')) :
    BackfillReturns db embedder table result table' := ⟨n + fuel, (hloop fuel).trans h⟩

theorem BackfillReturns.unique {result result' : Except PyError Unit} {table' table'' : KgTable V}
    (h : BackfillReturns db embedder table result table')
    (h' : BackfillReturns db embedder table result' table'') : result = result' ∧ table' = table'' := by
  obtain ⟨fuel, h⟩ := h
  obtain ⟨fuel', h'⟩ := h'
  exact Prod.mk.inj (loop_unique h h')

/-- If every round that finds rows is completed, some round finds none. -/
theorem exists_last_round
    (h : ∀ n, batchRows db table n ≠ [] → Completes db embedder table n) :
    ∃ n current, AfterRounds db embedder table n current ∧ nullRows current = [] ∧
      BackfillReturns db embedder table (.ok ()) current := by
  have hsize : 0 < BACKFILL_BATCH := by decide
  obtain ⟨n, hnil, hearlier⟩ := exists_pending_nil db.scan KgRow.id (nullRows table) hsize
  obtain ⟨current, hafter, hloop⟩ := loop_reaches fun m hm => ⟨hearlier m hm, h m (hearlier m hm)⟩
  have hbatch : batchRows db table n = [] := (batch_eq_nil_iff hsize).mpr hnil
  exact ⟨n, current, hafter, hafter.null.trans hnil, returns_of_loop hloop (loop_done hafter hbatch 0)⟩

/-- What the loop gets to. -/
theorem Reaches.loop (h : Reaches db embedder table n) :
    ∃ current, AfterRounds db embedder table n current ∧ ∀ fuel,
      backfillLoop db embedder (n + fuel) 0 table = backfillLoop db embedder fuel n current :=
  loop_reaches fun m hm => ⟨batch_ne_nil_of_le (by decide) hm.le h.1, h.2 m hm⟩

/-- A backfill comes to an end, whatever the embedder answers. -/
theorem backfill_terminates (db : BackfillDatabase V) (embedder : Embedder V) (table : KgTable V) :
    ∃ result table', BackfillReturns db embedder table result table' := by
  by_cases hall : ∀ n, batchRows db table n ≠ [] → Completes db embedder table n
  · obtain ⟨n, current, -, -, hreturns⟩ := exists_last_round hall
    exact ⟨_, _, hreturns⟩
  · -- the first round that is not completed
    classical
    simp only [not_forall] at hall
    obtain ⟨hne, hnot⟩ := Nat.find_spec hall
    have hreaches : Reaches db embedder table (Nat.find hall) := by
      refine ⟨hne, fun m hm => ?_⟩
      by_contra hm'
      exact Nat.find_min hall hm ⟨batch_ne_nil_of_le (by decide) hm.le hne, hm'⟩
    obtain ⟨current, hafter, hloop⟩ := hreaches.loop
    cases hanswer : answer db embedder table (Nat.find hall) with
    | error e => exact ⟨_, _, returns_of_loop hloop (loop_raises hafter hne hanswer 0)⟩
    | ok vectors =>
      obtain ⟨e, hstop⟩ := loop_mismatch hafter hne hanswer (fun hboth => hnot ⟨vectors, hanswer, hboth⟩) 0
      exact ⟨_, _, returns_of_loop hloop hstop⟩

end runs

/-! ### Filling -/

/-- With an embedder that answers every round, every row without embedding is filled in some round, and no
    other row changes. -/
theorem backfill_fills (h : ∀ n, batchRows db table n ≠ [] → Completes db embedder table n) :
    ∃ table', BackfillReturns db embedder table (.ok ()) table' ∧ nullRows table' = [] ∧
      List.Forall₂ (fun row row' => (row.embedding = none → ∃ n, FilledIn db embedder table n row row') ∧
        (row.embedding ≠ none → row' = row)) table.rows table'.rows := by
  obtain ⟨n, current, hafter, hnull, hreturns⟩ := exists_last_round h
  obtain ⟨f, hf, hrows⟩ := hafter.rows
  refine ⟨current, hreturns, hnull, (forall₂_rows_iff hf).mpr fun row hrow => ?_⟩
  rcases hrows row hrow with ⟨hsame, hearlier⟩ | ⟨m, -, hfilled⟩
  · refine ⟨fun hnone => ?_, fun _ => hsame⟩
    have hmem : row ∈ nullRows table := by simp [nullRows, hrow, hnone]
    rcases mem_pending_or_taken (nodup_nullRows table) hmem n with hpending | ⟨m, hm, htaken⟩
    · rw [← hafter.null, hnull] at hpending
      cases hpending
    · exact absurd htaken (hearlier m hm)
  · exact ⟨fun _ => ⟨m, hfilled⟩, fun hsome => absurd (mem_table_of_mem_batchRows hfilled.mem).2 hsome⟩

section perText
variable {e : String → V}

/-- A row without embedding gets the vector of its own text. -/
def withOwnVector (e : String → V) (row : KgRow V) : KgRow V :=
  if row.embedding.isNone then { row with embedding := some (e row.text) } else row

/-- An embedder that embeds every text by itself fills each row with the vector of its own text, however the
    rows come in batches. -/
theorem backfill_perText (hembed : ∀ n texts, embedder n texts = .ok (texts.map e))
    (hfits : ∀ text, db.refusal (e text) = none) (table : KgTable V) :
    ∃ table', BackfillReturns db embedder table (.ok ()) table' ∧
      table'.rows = table.rows.map (withOwnVector e) := by
  have hanswer : ∀ n, answer db embedder table n =
      .ok ((batchRows db table n).map (fun row => e row.text)) := by
    intro n
    rw [answer, hembed, List.map_map]
    rfl
  have hcompletes : ∀ n, Completes db embedder table n := by
    intro n
    refine ⟨_, hanswer n, List.length_map _, fun vector hvector => ?_⟩
    obtain ⟨row, -, rfl⟩ := List.mem_map.mp hvector
    exact hfits row.text
  have hfilled : ∀ n row row', FilledIn db embedder table n row row' →
      row' = { row with embedding := some (e row.text) } := by
    rintro n row row' ⟨vectors, vector, heq, hzip, rfl⟩
    rw [hanswer, Except.ok.injEq] at heq
    rw [← heq, ← List.map_prod_left_eq_zip] at hzip
    obtain ⟨row, -, hpair⟩ := List.mem_map.mp hzip
    cases hpair
    rfl
  obtain ⟨table', hreturns, -, hrows⟩ := backfill_fills fun n _ => hcompletes n
  have hsame : List.Forall₂ (fun row row' => withOwnVector e row = row') table.rows table'.rows := by
    refine hrows.imp fun row row' ⟨hnull, hkept⟩ => ?_
    cases hrow : row.embedding with
    | none =>
      obtain ⟨n, hfill⟩ := hnull hrow
      simp [withOwnVector, hrow, hfilled n row row' hfill]
    | some v =>
      have hne : row.embedding ≠ none := by simp [hrow]
      simp [withOwnVector, hrow, hkept hne]
  refine ⟨table', hreturns, ?_⟩
  rw [← List.forall₂_map_left_iff (f := withOwnVector e), List.forall₂_eq_eq_eq] at hsame
  exact hsame.symm

/-- On a fresh table such a backfill gives every row the vector of its text. -/
theorem backfill_embeds_all (hembed : ∀ n texts, embedder n texts = .ok (texts.map e))
    (hfits : ∀ text, db.refusal (e text) = none) (hfresh : FreshTable e table) :
    ∃ table', BackfillReturns db embedder table (.ok ()) table' ∧
      ∀ row ∈ table'.rows, row.embedding = some (e row.text) := by
  obtain ⟨table', hreturns, hrows⟩ := backfill_perText hembed hfits table
  refine ⟨table', hreturns, fun row' hrow' => ?_⟩
  rw [hrows] at hrow'
  obtain ⟨row, hrow, rfl⟩ := List.mem_map.mp hrow'
  rcases hfresh row hrow with hnone | hsome
  · rw [withOwnVector, if_pos (by simp [hnone])]
    rfl
  · rw [withOwnVector, if_neg (by simp [hsome])]
    exact hsome

end perText

/-! ### Failing -/

/-- Completed rounds fill their own rows. -/
theorem AfterRounds.rows_filled {current : KgTable V} (h : AfterRounds db embedder table n current) :
    List.Forall₂ (fun row row' => row' = row ∨ ∃ m < n, FilledIn db embedder table m row row')
      table.rows current.rows := by
  obtain ⟨f, hf, hrows⟩ := h.rows
  refine (forall₂_rows_iff hf).mpr fun row hrow => ?_
  rcases hrows row hrow with ⟨hsame, -⟩ | hfilled
  · exact Or.inl hsame
  · exact Or.inr hfilled

/-- Where nothing of a failed round stays, only completed rounds have filled rows. -/
theorem backfill_raises (hkeep : db.autocommit = false ∨ NoneLands db embedder table)
    (hreaches : Reaches db embedder table n) (hfails : Fails db embedder table n) :
    ∃ e table', BackfillReturns db embedder table (.error e) table' ∧
      List.Forall₂ (fun row row' => row' = row ∨ ∃ m < n, FilledIn db embedder table m row row')
        table.rows table'.rows := by
  obtain ⟨current, hafter, hloop⟩ := hreaches.loop
  rcases hfails with ⟨e, hanswer⟩ | ⟨vectors, hanswer, hlen⟩
  · exact ⟨e, current, returns_of_loop hloop (loop_raises hafter hreaches.1 hanswer 0), hafter.rows_filled⟩
  · obtain ⟨e, hstop⟩ := loop_mismatch hafter hreaches.1 hanswer (fun hboth => hlen hboth.1) 0
    refine ⟨e, _, returns_of_loop hloop hstop, ?_⟩
    rcases hkeep with hrollback | hnone
    · rw [if_neg (by simp [hrollback])]
      exact hafter.rows_filled
    · have hlanded : landed db (batchRows db table n) vectors = [] := by
        cases vectors with
        | nil => simp [landed]
        | cons vector vectors =>
          obtain ⟨row, rows, hrows⟩ := List.exists_cons_of_ne_nil hreaches.1
          have hrefused := hnone n hreaches _ hanswer hlen vector rfl
          simp [landed, hrows, hrefused]
      rw [hlanded]
      exact (ite_self current).symm ▸ hafter.rows_filled

/-- Where every statement is committed, a vector that is written before a round fails stays. -/
theorem noneLands_of_backfills (h : Backfills db embedder table) (hautocommit : db.autocommit = true) :
    NoneLands db embedder table := by
  intro n hreaches vectors hanswer hlen vector hhead hfits
  obtain ⟨e, table', hreturns, hrows⟩ := h.raises n hreaches (Or.inr ⟨vectors, hanswer, hlen⟩)
  obtain ⟨current, hafter, hloop⟩ := hreaches.loop
  obtain ⟨e', hstop⟩ := loop_mismatch hafter hreaches.1 hanswer (fun hboth => hlen hboth.1) 0
  rw [if_pos hautocommit] at hstop
  obtain ⟨-, rfl⟩ := hreturns.unique (returns_of_loop hloop hstop)
  obtain ⟨row, rows, hbatch⟩ := List.exists_cons_of_ne_nil hreaches.1
  obtain ⟨vectors, rfl⟩ := List.head?_eq_some_iff.mp hhead
  have hmem : row ∈ batchRows db table n := hbatch ▸ List.mem_cons_self
  obtain ⟨hrow, hnull⟩ := mem_table_of_mem_batchRows hmem
  have hearlier : ∀ m < n, row ∉ batchRows db table m := fun m hm htaken => not_mem_batch htaken hm hmem
  obtain ⟨f, hf, hkept⟩ := hafter.rows
  have hsame : f row = row := by
    rcases hkept row hrow with ⟨hsame, -⟩ | ⟨m, hm, hfilled⟩
    · exact hsame
    · exact absurd hfilled.mem (hearlier m hm)
  -- the first row of the round has a vector now, though the round was not completed
  have hid : row.id ∈ (landed db (batchRows db table n) (vector :: vectors)).map (·.1.id) := by
    simp [landed, hbatch, hfits]
  obtain ⟨p, -, -, hfill⟩ := fill_of_mem hid
  have hwritten : (writeVectors current (landed db (batchRows db table n) (vector :: vectors))).rows =
      table.rows.map (fill (landed db (batchRows db table n) (vector :: vectors)) ∘ f) := by
    rw [rows_writeVectors, hf, List.map_map]
  rcases (forall₂_rows_iff hwritten).mp hrows row hrow with hunchanged | ⟨m, hm, hfilled⟩
  · rw [Function.comp_apply, hsame, hfill] at hunchanged
    rw [← hunchanged] at hnull
    cases hnull
  · exact hearlier m hm hfilled.mem

/-- The backfill does what it is for exactly when nothing of a round with a wrong number of vectors stays:
    the connections open a transaction, or no such round writes a vector before it fails. -/
theorem backfills_iff (db : BackfillDatabase V) (embedder : Embedder V) (table : KgTable V) :
    Backfills db embedder table ↔ db.autocommit = false ∨ NoneLands db embedder table := by
  constructor
  · intro h
    cases hautocommit : db.autocommit with
    | false => exact Or.inl rfl
    | true => exact Or.inr (noneLands_of_backfills h hautocommit)
  · intro hkeep
    exact ⟨backfill_fills, fun n => backfill_raises hkeep⟩

/-! ### Two notes -/

/-- Two notes stored without embedding. -/
def twoNotes : KgTable ℕ where
  rows :=
    [{ id := "n1", type := "note", name := "plan", content := "draft", acl := some [], scope := .org },
      { id := "n2", type := "note", name := "plan", content := "final", acl := some [], scope := .org }]
  nodup := by decide

/-- A database behind the pool of the program, whose connections commit every statement. -/
def autocommitDatabase : BackfillDatabase ℕ where
  scan := ⟨fun _ rows => rows, fun _ _ => .refl _⟩
  refusal := fun _ => none
  autocommit := true

/-- An embedder that returns one vector for two texts. -/
def oneVector : Embedder ℕ := fun _ _ => .ok [7]

/-- The only round raises, and the first note keeps the vector that was written in it. -/
theorem backfill_keeps_part :
    (backfillNullEmbeddings autocommitDatabase (some oneVector) 1 twoNotes).map
        (fun r => (r.1, r.2.rows.map (fun row => (row.id, row.embedding)))) =
      some (.error (zipError "shorter"), [("n1", some 7), ("n2", none)]) ∧
    ¬Backfills autocommitDatabase oneVector twoNotes := by
  refine ⟨rfl, fun h => ?_⟩
  have hreaches : Reaches autocommitDatabase oneVector twoNotes 0 :=
    ⟨by decide, fun m hm => absurd hm (Nat.not_lt_zero m)⟩
  exact noneLands_of_backfills h rfl 0 hreaches [7] rfl (by decide) 7 rfl rfl

end Atlas
