import Atlas.Persistence.BackfillLoop

/-! A backfill without concurrent writers as a run of the steps that interleave with others. A round of the
    loop selects its rows, embeds their texts and takes one update for each of them. The steps write a batch
    in the order of the table and the loop in the order in which the query finds it; the ids of a batch are
    distinct, so both leave the same table (`writeVectors_perm`). -/

namespace Atlas

open LabelledRun Batches

variable {V B : Type}

/-! ### The order of the updates -/

section order
variable {pairs pairs' : List (KgRow V × V)}

theorem fill_perm (hperm : pairs.Perm pairs') (hnodup : (pairs.map (·.1.id)).Nodup) (row : KgRow V) :
    fill pairs row = fill pairs' row := by
  have hids : (pairs.map (·.1.id)).Perm (pairs'.map (·.1.id)) := hperm.map _
  by_cases h : row.id ∈ pairs.map (·.1.id)
  · obtain ⟨p, hp, hid, hfill⟩ := fill_of_mem h
    obtain ⟨q, hq, hid', hfill'⟩ := fill_of_mem (hids.mem_iff.mp h)
    have hpq : p = q := List.inj_on_of_nodup_map hnodup hp (hperm.mem_iff.mpr hq) (hid.trans hid'.symm)
    rw [hfill, hfill', hpq]
  · rw [fill_of_not_mem h, fill_of_not_mem (mt hids.mem_iff.mpr h)]

/-- Vectors under distinct ids may be written in any order. -/
theorem writeVectors_perm (hperm : pairs.Perm pairs') (hnodup : (pairs.map (·.1.id)).Nodup)
    (table : KgTable V) : writeVectors table pairs = writeVectors table pairs' := by
  refine Table.eq_of_rows ?_
  rw [rows_writeVectors, rows_writeVectors]
  exact List.map_congr_left fun row _ => fill_perm hperm hnodup row

end order

/-! ### One round -/

section round
variable [DecidableEq B] {e : String → V} {s : EmbeddingState V B} {b : B} {rows : List (KgRow V)}

/-- The rows of a batch with the vectors of their texts. -/
def withVectors (e : String → V) (rows : List (KgRow V)) : List (KgRow V × V) :=
  rows.map (fun row => (row, e row.text))

/-- The updates of a batch, step by step. -/
theorem exec_updates (hne : rows ≠ [])
    (h : s.backfill b = .writing (rows.map (fun row => (row.id, e row.text)))) :
    exec (embeddingStep e) s (List.replicate rows.length (.update b)) =
      some (EmbeddingState.move { s with table := writeVectors s.table (withVectors e rows) } b .ready) := by
  induction rows generalizing s with
  | nil => exact absurd rfl hne
  | cons row rows ih =>
    have hstep : embeddingStep e s (.update b) = some (EmbeddingState.move
        { s with table := setEmbedding s.table row.id (e row.text) } b
        (if (rows.map (fun row => (row.id, e row.text))).isEmpty then .ready
          else .writing (rows.map (fun row => (row.id, e row.text))))) := by
      simp only [embeddingStep, h, List.map_cons]
    rw [List.length_cons, List.replicate_succ, exec, hstep, Option.bind_some]
    cases rows with
    | nil => rfl
    | cons row' rows =>
      rw [ih (List.cons_ne_nil _ _) (by simp [EmbeddingState.move])]
      simp [EmbeddingState.move, writeVectors, withVectors]

/-- What a query for rows without embedding may find. -/
structure FoundBatch (table : KgTable V) (rows : List (KgRow V)) : Prop where
  found : ∀ row ∈ rows, row ∈ nullRows table
  length : rows.length = min BACKFILL_BATCH (nullRows table).length
  nodup : (rows.map KgRow.id).Nodup

theorem foundBatch_take (scan : Scan (KgRow V)) (n : ℕ) (table : KgTable V) :
    FoundBatch table (scan.take BACKFILL_BATCH n (nullRows table)) where
  found _ := Scan.mem_of_mem_take
  length := Scan.length_take
  nodup := Scan.nodup_take (nodup_nullRows table)

/-- The rows under the ids of a batch are the batch. -/
theorem FoundBatch.perm {table : KgTable V} (h : FoundBatch table rows) :
    (batchOf table (rows.map KgRow.id)).Perm rows := by
  have hids : ((batchOf table (rows.map KgRow.id)).map KgRow.id).Nodup :=
    (nodup_nullRows table).sublist (List.filter_sublist.map _)
  refine (List.perm_ext_iff_of_nodup (List.Nodup.of_map _ hids) (List.Nodup.of_map _ h.nodup)).mpr ?_
  intro row
  rw [batchOf, List.mem_filter, List.contains_iff_mem, List.mem_map]
  constructor
  · rintro ⟨hrow, row', hrow', hid⟩
    obtain rfl : row' = row := List.inj_on_of_nodup_map (nodup_nullRows table) (h.found row' hrow') hrow hid
    exact hrow'
  · intro hrow
    exact ⟨h.found row hrow, row, hrow, rfl⟩

theorem select_batch (hready : s.backfill b = .ready) (hne : rows ≠ []) (h : FoundBatch s.table rows) :
    embeddingStep e s (.select b (rows.map KgRow.id)) = some (s.move b (.selected
      ((batchOf s.table (rows.map KgRow.id)).map (fun row => (row.id, row.text))))) := by
  have hlen : (batchOf s.table (rows.map KgRow.id)).length =
      min BACKFILL_BATCH (nullRows s.table).length := h.perm.length_eq.trans h.length
  have hnonempty : batchOf s.table (rows.map KgRow.id) ≠ [] :=
    fun hnil => hne (List.nil_perm.mp (hnil ▸ h.perm))
  simp [embeddingStep, hready, EmbeddingState.selectBatch, hlen, hnonempty]

/-- The steps of a round write what the loop writes. -/
theorem exec_round (hready : s.backfill b = .ready) (hne : rows ≠ []) (h : FoundBatch s.table rows) :
    exec (embeddingStep e) s
        (.select b (rows.map KgRow.id) :: .embed b true :: List.replicate rows.length (.update b)) =
      some { s with table := writeVectors s.table (withVectors e rows) } := by
  have hselect := select_batch (e := e) hready hne h
  have hperm := h.perm
  -- from here on the batch in the order of the table
  generalize batchOf s.table (rows.map KgRow.id) = batch at hselect hperm
  have hnonempty : batch ≠ [] := fun hnil => hne (List.nil_perm.mp (hnil ▸ hperm))
  have hembed : embeddingStep e (s.move b (.selected (batch.map (fun row => (row.id, row.text)))))
      (.embed b true) = some (s.move b (.writing (batch.map (fun row => (row.id, e row.text))))) := by
    simp [embeddingStep, EmbeddingState.move, Function.comp_def]
  have hupdates := exec_updates (e := e) (b := b) hnonempty
    (s := s.move b (.writing (batch.map (fun row => (row.id, e row.text))))) (by simp [EmbeddingState.move])
  have hids : (withVectors e batch).map (·.1.id) = batch.map KgRow.id := List.map_map
  have hwritten : writeVectors s.table (withVectors e batch) = writeVectors s.table (withVectors e rows) :=
    writeVectors_perm (hperm.map _) (hids ▸ (hperm.map KgRow.id).nodup_iff.mpr h.nodup) s.table
  rw [exec, hselect, Option.bind_some, exec, hembed, Option.bind_some, ← hperm.length_eq, hupdates,
    ← hwritten]
  simp [EmbeddingState.move, ← hready]

/-- A call that raises ends the round without a write. -/
theorem exec_failed (hready : s.backfill b = .ready) (hne : rows ≠ []) (h : FoundBatch s.table rows) :
    exec (embeddingStep e) s [.select b (rows.map KgRow.id), .embed b false] = some s := by
  rw [exec, select_batch hready hne h, Option.bind_some]
  simp [exec, embeddingStep, EmbeddingState.move, ← hready]

end round

/-! ### The loop -/

section loop
variable [DecidableEq B] {e : String → V} {s : EmbeddingState V B} {b : B} {db : BackfillDatabase V}
  {embedder : Embedder V}

/-- Where the embedder gives every text its vector or raises, what the loop leaves is what a run of one
    backfill leaves, and the backfill is ready again. -/
theorem loop_run (hembed : ∀ n texts vectors, embedder n texts = .ok vectors → vectors = texts.map e)
    (hfits : ∀ text, db.refusal (e text) = none) (hready : s.backfill b = .ready) {fuel n : ℕ}
    {result : Except PyError Unit} {table' : KgTable V}
    (h : backfillLoop db embedder fuel n s.table = some (result, table')) :
    ∃ run, exec (embeddingStep e) s run = some { s with table := table' } := by
  induction fuel generalizing n s with
  | zero => cases h
  | succ fuel ih =>
    obtain ⟨rows, hrows⟩ : ∃ rows, rows = db.scan.take BACKFILL_BATCH n (nullRows s.table) := ⟨_, rfl⟩
    have hfound : FoundBatch s.table rows := hrows ▸ foundBatch_take db.scan n s.table
    simp only [backfillLoop, ← hrows] at h
    split at h
    next =>
      cases h
      exact ⟨[], rfl⟩
    next hnonempty =>
      have hne : rows ≠ [] := by simpa using hnonempty
      cases hanswer : embedder n (rows.map KgRow.text) with
      | error err =>
        simp only [hanswer] at h
        cases h
        exact ⟨_, exec_failed hready hne hfound⟩
      | ok vectors =>
        obtain rfl := hembed n _ vectors hanswer
        have hcolumn : ∀ vector ∈ (rows.map KgRow.text).map e, db.refusal vector = none := by
          intro vector hvector
          obtain ⟨text, -, rfl⟩ := List.mem_map.mp hvector
          exact hfits text
        have hlen : ((rows.map KgRow.text).map e).length = rows.length := by simp
        have hzip : rows.zip ((rows.map KgRow.text).map e) = withVectors e rows := by
          rw [List.map_map, withVectors, List.map_prod_left_eq_zip]
          rfl
        have hwrite := hzip ▸ writeBatch_of_completes hlen hcolumn s.table
        simp only [hanswer, hwrite] at h
        have hnext : EmbeddingState.backfill { s with table := writeVectors s.table (withVectors e rows) } b =
            .ready := hready
        obtain ⟨run, hrun⟩ := ih hnext h
        exact ⟨_, exec_append.mpr ⟨_, exec_round hready hne hfound, hrun⟩⟩

/-- So a backfill that runs alone is one way for the steps to interleave. -/
theorem backfill_simulated
    (hembed : ∀ n texts vectors, embedder n texts = .ok vectors → vectors = texts.map e)
    (hfits : ∀ text, db.refusal (e text) = none) (hready : s.backfill b = .ready)
    {result : Except PyError Unit} {table' : KgTable V}
    (h : BackfillReturns db embedder s.table result table') :
    ∃ run, exec (embeddingStep e) s run = some { s with table := table' } := by
  obtain ⟨fuel, h⟩ := h
  exact loop_run hembed hfits hready h

end loop

end Atlas
