import Atlas.Persistence.RankFusion
import Atlas.Persistence.RbacPredicate

/-! Hybrid retrieval. The loop reads the full-text rows page by page, fuses what it has read with the
    vector ranking, and takes the readable entities it has not considered. Its invariant says that a
    considered id is dealt with: its entity is a result if it is readable. Every page read makes all of
    its rows and all vector candidates considered, so the result is complete as soon as one page is read
    to the end; the exit before the first page is the one that loses the vector candidates. -/

namespace Atlas

/-! ### Fusion -/

/-- The fusion of two rankings holds the ids of both. -/
theorem mem_rrfFuse_pair {S : Type} {sc : Scores S} {k : ℕ} {x : String} {ids ids' : List String} :
    x ∈ rrfFuse sc k [ids, ids'] ↔ x ∈ ids ∨ x ∈ ids' := by
  simp [mem_rrfFuse]

/-! ### The scan of one fused ranking -/

section loop
variable {readable : Entity → Bool} {limit : ℕ} {found : List Entity}

/-- An entity is determined by its id. -/
def IdsUnique (found : List Entity) : Prop :=
  ∀ a ∈ found, ∀ b ∈ found, a.id = b.id → a = b

/-- What the loop knows of its results: they are readable candidates, each once, at most `limit`, and every
    considered candidate that is readable is among them. -/
structure ScanInv (readable : Entity → Bool) (limit : ℕ) (found : List Entity) (st : HybridState) :
    Prop where
  known : ∀ k e, st.entitiesById.get? k = some e → e ∈ found ∧ e.id = k
  nodup : (st.results.map (·.id)).Nodup
  marked : ∀ e ∈ st.results, e.id ∈ st.considered
  sound : ∀ e ∈ st.results, e ∈ found ∧ readable e = true
  dealt : ∀ e ∈ found, e.id ∈ st.considered → readable e = true → e ∈ st.results
  bound : st.results.length ≤ limit

/-- Considering a readable entity for the first time adds it to the results. -/
theorem ScanInv.keep {st : HybridState} (hid : IdsUnique found) (h : ScanInv readable limit found st)
    {e : Entity} (he : e ∈ found) (hnew : e.id ∉ st.considered) (hread : readable e = true)
    (hroom : st.results.length < limit) :
    ScanInv readable limit found
      { st with considered := e.id :: st.considered, results := st.results ++ [e] } where
  known := h.known
  nodup := by
    rw [List.map_append, List.nodup_append]
    refine ⟨h.nodup, List.nodup_singleton _, ?_⟩
    intro x hx y hy hxy
    obtain ⟨a, ha, rfl⟩ := List.mem_map.mp hx
    obtain rfl := List.mem_singleton.mp hy
    have heq : a.id = e.id := hxy
    exact hnew (heq ▸ h.marked a ha)
  marked := by
    intro a ha
    rcases List.mem_append.mp ha with ha | ha
    · exact List.mem_cons_of_mem _ (h.marked a ha)
    · rw [List.mem_singleton.mp ha]
      exact List.mem_cons_self
  sound := by
    intro a ha
    rcases List.mem_append.mp ha with ha | ha
    · exact h.sound a ha
    · rw [List.mem_singleton.mp ha]
      exact ⟨he, hread⟩
  dealt := by
    intro a ha hcon hra
    rcases List.mem_cons.mp hcon with heq | hcon
    · rw [hid a ha e he heq]
      exact List.mem_append_right _ List.mem_cons_self
    · exact List.mem_append_left _ (h.dealt a ha hcon hra)
  bound := by
    rw [List.length_append, List.length_singleton]
    exact hroom

/-- Considering an unreadable entity changes no result. -/
theorem ScanInv.skip {st : HybridState} (hid : IdsUnique found) (h : ScanInv readable limit found st)
    {e : Entity} (he : e ∈ found) (hread : readable e = false) :
    ScanInv readable limit found { st with considered := e.id :: st.considered } where
  known := h.known
  nodup := h.nodup
  marked := fun a ha => List.mem_cons_of_mem _ (h.marked a ha)
  sound := h.sound
  dealt := by
    intro a ha hcon hra
    rcases List.mem_cons.mp hcon with heq | hcon
    · rw [hid a ha e he heq, hread] at hra
      cases hra
    · exact h.dealt a ha hcon hra
  bound := h.bound

/-- What a scan leaves: the invariant, the rows and the ranking as they were, and, unless the results are
    full, every known id of the ranking considered. -/
structure Scanned (readable : Entity → Bool) (limit : ℕ) (found : List Entity) (fused : List String)
    (st st' : HybridState) : Prop where
  inv : ScanInv readable limit found st'
  entities : st'.entitiesById = st.entitiesById
  ranking : st'.ftsIds = st.ftsIds
  mono : ∀ x ∈ st.considered, x ∈ st'.considered
  through : st'.results.length < limit →
    ∀ x ∈ fused, (st.entitiesById.get? x).isSome = true → x ∈ st'.considered

/-- One more id at the front of the ranking, once it is considered or has no row. -/
theorem Scanned.cons {fused : List String} {mid st' : HybridState} {x : String} (st : HybridState)
    (h : Scanned readable limit found fused mid st') (hent : mid.entitiesById = st.entitiesById)
    (hrank : mid.ftsIds = st.ftsIds) (hmono : ∀ y ∈ st.considered, y ∈ mid.considered)
    (hx : (st.entitiesById.get? x).isSome = true → x ∈ mid.considered) :
    Scanned readable limit found (x :: fused) st st' where
  inv := h.inv
  entities := h.entities.trans hent
  ranking := h.ranking.trans hrank
  mono := fun y hy => h.mono y (hmono y hy)
  through := by
    intro hlt y hy hsome
    rcases List.mem_cons.mp hy with rfl | hy
    · exact h.mono y (hx hsome)
    · exact h.through hlt y hy (hent ▸ hsome)

theorem scan_spec (hid : IdsUnique found) : ∀ {fused : List String} {st : HybridState},
    ScanInv readable limit found st → st.results.length < limit →
    Scanned readable limit found fused st (st.scan readable limit fused) := by
  intro fused
  induction fused with
  | nil =>
    intro st h _
    exact ⟨h, rfl, rfl, fun _ hx => hx, fun _ _ hx => absurd hx List.not_mem_nil⟩
  | cons x fused ih =>
    intro st h hroom
    rw [HybridState.scan]
    by_cases hcon : x ∈ st.considered
    · rw [if_pos hcon]
      exact (ih h hroom).cons st rfl rfl (fun _ hy => hy) (fun _ => hcon)
    · rw [if_neg hcon]
      cases hget : st.entitiesById.get? x with
      | none => exact (ih h hroom).cons st rfl rfl (fun _ hy => hy) (fun hs => by simp [hget] at hs)
      | some e =>
        obtain ⟨he, rfl⟩ := h.known x e hget
        have hmono : ∀ y ∈ st.considered, y ∈ e.id :: st.considered := fun _ => List.mem_cons_of_mem _
        cases hread : readable e with
        | false =>
          simp only [hread, Bool.false_eq_true, if_false]
          exact (ih (h.skip hid he hread) hroom).cons st rfl rfl hmono (fun _ => List.mem_cons_self)
        | true =>
          have hkeep := h.keep hid he hcon hread hroom
          by_cases hfull : limit ≤ (st.results ++ [e]).length
          · -- the limit is reached: the rest of the ranking is not looked at
            simp only [hread, if_true, if_pos hfull]
            exact ⟨hkeep, rfl, rfl, hmono, fun hlt => absurd hfull (not_le.mpr hlt)⟩
          · simp only [hread, if_true, if_neg hfull]
            exact (ih hkeep (not_le.mp hfull)).cons st rfl rfl hmono (fun _ => List.mem_cons_self)

/-! ### Pages -/

/-- What absorbing rows leaves: they are known and ranked, next to everything that was. -/
structure Absorbed (batch : List Entity) (st st' : HybridState) : Prop where
  considered : st'.considered = st.considered
  results : st'.results = st.results
  held : ∀ x, (st.entitiesById.get? x).isSome = true → (st'.entitiesById.get? x).isSome = true
  ranked : ∀ x ∈ st.ftsIds, x ∈ st'.ftsIds
  rows : ∀ e ∈ batch, (st'.entitiesById.get? e.id).isSome = true ∧ e.id ∈ st'.ftsIds
  origin : ∀ k e, st'.entitiesById.get? k = some e →
    st.entitiesById.get? k = some e ∨ e ∈ batch ∧ e.id = k

theorem absorb_isSome (st : HybridState) (e : Entity) (x : String) :
    ((st.absorb e).entitiesById.get? x).isSome = true ↔
      x = e.id ∨ (st.entitiesById.get? x).isSome = true := by
  rw [HybridState.absorb, Dict.get?_set]
  split
  next h => simp [h]
  next h => simp [h]

theorem mem_absorb_ftsIds (st : HybridState) (e : Entity) (x : String) :
    x ∈ (st.absorb e).ftsIds ↔ x ∈ st.ftsIds ∨ x = e.id := by
  rw [HybridState.absorb]
  split
  next h =>
    refine ⟨Or.inl, ?_⟩
    rintro (hx | rfl)
    · exact hx
    · exact h
  next h => rw [List.mem_append, List.mem_singleton]

theorem absorb_origin {st : HybridState} {e a : Entity} {k : String}
    (h : (st.absorb e).entitiesById.get? k = some a) :
    st.entitiesById.get? k = some a ∨ a = e ∧ e.id = k := by
  rw [HybridState.absorb, Dict.get?_set] at h
  split at h
  next hk => exact Or.inr ⟨(Option.some.inj h).symm, hk.symm⟩
  next hk => exact Or.inl h

theorem absorbed_foldl : ∀ (batch : List Entity) (st : HybridState),
    Absorbed batch st (batch.foldl HybridState.absorb st) := by
  intro batch
  induction batch with
  | nil =>
    intro st
    exact ⟨rfl, rfl, fun _ h => h, fun _ h => h, fun _ h => absurd h List.not_mem_nil, fun _ _ => Or.inl⟩
  | cons e batch ih =>
    intro st
    have h := ih (st.absorb e)
    refine ⟨h.considered, h.results, ?_, ?_, ?_, ?_⟩
    · intro x hx
      exact h.held x ((absorb_isSome st e x).mpr (Or.inr hx))
    · intro x hx
      exact h.ranked x ((mem_absorb_ftsIds st e x).mpr (Or.inl hx))
    · intro a ha
      rcases List.mem_cons.mp ha with rfl | ha
      · exact ⟨h.held _ ((absorb_isSome st a _).mpr (Or.inl rfl)),
          h.ranked _ ((mem_absorb_ftsIds st a _).mpr (Or.inr rfl))⟩
      · exact h.rows a ha
    · intro k a hget
      rcases h.origin k a hget with hold | ⟨ha, hk⟩
      · rcases absorb_origin hold with hold | ⟨rfl, hk⟩
        · exact Or.inl hold
        · exact Or.inr ⟨List.mem_cons_self, hk⟩
      · exact Or.inr ⟨List.mem_cons_of_mem _ ha, hk⟩

/-- Absorbing candidates keeps the invariant. -/
theorem Absorbed.inv {batch : List Entity} {st st' : HybridState} (h : Absorbed batch st st')
    (hinv : ScanInv readable limit found st) (hbatch : ∀ e ∈ batch, e ∈ found) :
    ScanInv readable limit found st' where
  known := by
    intro k e hget
    rcases h.origin k e hget with hold | ⟨he, hk⟩
    · exact hinv.known k e hold
    · exact ⟨hbatch e he, hk⟩
  nodup := h.results ▸ hinv.nodup
  marked := by
    rw [h.results, h.considered]
    exact hinv.marked
  sound := h.results ▸ hinv.sound
  dealt := by
    rw [h.results, h.considered]
    exact hinv.dealt
  bound := h.results ▸ hinv.bound

/-- What the loop has done when `offset` rows are read: it considered them all and, once there is one, all
    vector candidates. -/
structure PageInv (readable : Entity → Bool) (limit : ℕ) (rows candidates : List Entity) (offset : ℕ)
    (st : HybridState) : Prop where
  inv : ScanInv readable limit (candidates ++ rows) st
  held : ∀ e ∈ candidates, (st.entitiesById.get? e.id).isSome = true
  read : ∀ e ∈ rows.take offset, e.id ∈ st.considered
  vector : 0 < offset → ∀ e ∈ candidates, e.id ∈ st.considered

variable {S : Type} {sc : Scores S} {rows candidates : List Entity}

theorem mem_rows_of_mem_page {offset : ℕ} {e : Entity} (h : e ∈ Paging.page rows offset limit) :
    e ∈ rows := List.mem_of_mem_drop (List.mem_of_mem_take h)

/-- A page keeps the invariant of the results and, unless they are full, moves the offset past its rows. -/
theorem PageInv.page (sc : Scores S) {offset : ℕ} {st : HybridState} (hid : IdsUnique (candidates ++ rows))
    (h : PageInv readable limit rows candidates offset st) (hroom : st.results.length < limit) :
    let batch := Paging.page rows offset limit
    let st' := st.page sc readable limit (candidates.map (·.id)) batch
    ScanInv readable limit (candidates ++ rows) st' ∧
      (st'.results.length < limit →
        PageInv readable limit rows candidates (offset + batch.length) st') := by
  intro batch st'
  have habs := absorbed_foldl batch st
  have hinv := habs.inv h.inv fun e he => List.mem_append_right _ (mem_rows_of_mem_page he)
  have hscan : Scanned readable limit (candidates ++ rows)
      (rrfFuse sc RRF_K [(batch.foldl HybridState.absorb st).ftsIds, candidates.map (·.id)])
      (batch.foldl HybridState.absorb st) st' := scan_spec hid hinv (habs.results ▸ hroom)
  refine ⟨hscan.inv, fun hlt => ⟨hscan.inv, ?_, ?_, ?_⟩⟩
  · intro e he
    rw [hscan.entities]
    exact habs.held _ (h.held e he)
  · intro e he
    rw [← Paging.take_offset_add_length, List.mem_append] at he
    rcases he with he | he
    · exact hscan.mono _ (habs.considered ▸ h.read e he)
    · obtain ⟨hsome, hranked⟩ := habs.rows e he
      exact hscan.through hlt _ (mem_rrfFuse_pair.mpr (Or.inl hranked)) hsome
  · intro _ e he
    have hranked : e.id ∈ candidates.map (·.id) := List.mem_map_of_mem he
    exact hscan.through hlt _ (mem_rrfFuse_pair.mpr (Or.inr hranked)) (habs.held _ (h.held e he))

/-- The results the loop leaves: readable candidates, each once, all of them or as many as asked for. -/
structure Selected (readable : Entity → Bool) (limit : ℕ) (found result : List Entity) : Prop where
  nodup : (result.map (·.id)).Nodup
  sound : ∀ e ∈ result, e ∈ found ∧ readable e = true
  bound : result.length ≤ limit
  complete : result.length < limit → ∀ e ∈ found, readable e = true → e ∈ result

theorem ScanInv.selected {st : HybridState} (h : ScanInv readable limit found st)
    (hall : st.results.length < limit → ∀ e ∈ found, e.id ∈ st.considered) :
    Selected readable limit found st.results :=
  ⟨h.nodup, h.sound, h.bound, fun hlt e he => h.dealt e he (hall hlt e he)⟩

/-- Once every row is read, everything found is considered. -/
theorem PageInv.considered_all {offset : ℕ} {st : HybridState} (hrows : rows ≠ [])
    (h : PageInv readable limit rows candidates offset st) (hend : rows.length ≤ offset) :
    ∀ e ∈ candidates ++ rows, e.id ∈ st.considered := by
  intro e he
  have hpos : 0 < offset := lt_of_lt_of_le (List.length_pos_iff.mpr hrows) hend
  rcases List.mem_append.mp he with he | he
  · exact h.vector hpos e he
  · exact h.read e ((List.take_of_length_le hend).symm ▸ he)

/-- With at least one full-text row, whichever exit the loop takes, the result is complete. -/
theorem hybridLoop_selected {fetch : ℕ → Except PyError (List Entity)}
    (hfetch : ∀ offset, fetch offset = .ok (Paging.page rows offset limit))
    (hid : IdsUnique (candidates ++ rows)) (hrows : rows ≠ []) (hlimit : 0 < limit)
    {fuel offset : ℕ} {st : HybridState} (hfuel : rows.length < offset + fuel)
    (h : PageInv readable limit rows candidates offset st) :
    ∃ result, hybridLoop sc readable fetch (candidates.map (·.id)) limit fuel offset st = .ok result ∧
      Selected readable limit (candidates ++ rows) result := by
  induction fuel generalizing offset st with
  | zero => exact ⟨_, rfl, h.inv.selected fun _ => h.considered_all hrows hfuel.le⟩
  | succ fuel ih =>
    rw [hybridLoop]
    split
    next hroom =>
      obtain ⟨hinv, hnext⟩ := h.page sc hid hroom
      rw [hfetch, Fallible.ok_bind]
      simp only
      split
      next hempty =>
        -- nothing is left to read
        have hend := (Paging.page_eq_nil_iff hlimit).mp (List.isEmpty_iff.mp hempty)
        exact ⟨_, rfl, h.inv.selected fun _ => h.considered_all hrows hend⟩
      next hne =>
        split
        next hfull => exact ⟨_, rfl, hinv.selected fun hlt => absurd hfull (not_le.mpr hlt)⟩
        next hopen =>
          have hpage := hnext (not_le.mp hopen)
          split
          next hshort =>
            refine ⟨_, rfl, hinv.selected fun _ => ?_⟩
            exact hpage.considered_all hrows (Paging.length_le_of_short hshort)
          next hlong =>
            refine ih ?_ hpage
            omega
    next hfull => exact ⟨_, rfl, h.inv.selected fun hlt => absurd hlt hfull⟩

/-! ### What a retrieval promises -/

/-- The number of distinct readable entities of a list. -/
def distinctReadable (readable : Entity → Bool) (found : List Entity) : ℕ :=
  ((found.filter readable).map (·.id)).dedup.length

/-- The best a query can return of what it found: no id twice, only readable entities, as many as there are
    up to the limit, so all of them where the limit leaves room. -/
structure Retrieved (readable : Entity → Bool) (limit : ℕ) (found result : List Entity) : Prop where
  nodup : (result.map (·.id)).Nodup
  sound : ∀ e ∈ result, e ∈ found ∧ readable e = true
  length : result.length = min limit (distinctReadable readable found)
  complete : distinctReadable readable found ≤ limit → ∀ e ∈ found, readable e = true → e ∈ result

theorem mem_readable_ids {x : String} : x ∈ ((found.filter readable).map (·.id)).dedup ↔
    ∃ e ∈ found, readable e = true ∧ e.id = x := by
  simp only [List.mem_dedup, List.mem_map, List.mem_filter, and_assoc]

/-- Results without duplicates are at most as many as the distinct readable entities, and exactly those
    where they are as many. -/
theorem Selected.subperm {result : List Entity} (h : Selected readable limit found result) :
    (result.map (·.id)).Subperm ((found.filter readable).map (·.id)).dedup := by
  refine h.nodup.subperm ?_
  intro x hx
  obtain ⟨e, he, rfl⟩ := List.mem_map.mp hx
  exact mem_readable_ids.mpr ⟨e, (h.sound e he).1, (h.sound e he).2, rfl⟩

theorem Selected.length_le {result : List Entity} (h : Selected readable limit found result) :
    result.length ≤ distinctReadable readable found := by
  simpa [distinctReadable] using h.subperm.length_le

theorem Selected.length_eq {result : List Entity} (h : Selected readable limit found result) :
    result.length = min limit (distinctReadable readable found) := by
  have hle := h.length_le
  have hbound := h.bound
  by_cases hlt : result.length < limit
  · have hge : distinctReadable readable found ≤ (result.map (·.id)).length := by
      refine (List.nodup_dedup _).subperm ?_ |>.length_le
      intro x hx
      obtain ⟨e, he, hread, rfl⟩ := mem_readable_ids.mp hx
      exact List.mem_map_of_mem (h.complete hlt e he hread)
    rw [List.length_map] at hge
    omega
  · omega

theorem Selected.retrieved {result : List Entity} (hid : IdsUnique found)
    (h : Selected readable limit found result) : Retrieved readable limit found result where
  nodup := h.nodup
  sound := h.sound
  length := h.length_eq
  complete := by
    intro hle e he hread
    -- as many results as readable entities: the results' ids are all readable ids
    have hlen : ((found.filter readable).map (·.id)).dedup.length ≤ (result.map (·.id)).length := by
      rw [List.length_map, h.length_eq, min_eq_right hle]
      exact le_rfl
    have hperm := h.subperm.perm_of_length_le hlen
    obtain ⟨a, ha, heq⟩ := List.mem_map.mp (hperm.mem_iff.mpr (mem_readable_ids.mpr ⟨e, he, hread, rfl⟩))
    exact hid a (h.sound a ha).1 e he heq ▸ ha

/-- Only the readable part of what was found matters. -/
theorem Selected.congr {found' result : List Entity} (h : Selected readable limit found result)
    (hsame : ∀ e, readable e = true → (e ∈ found ↔ e ∈ found')) :
    Selected readable limit found' result where
  nodup := h.nodup
  sound := fun e he => ⟨(hsame e (h.sound e he).2).mp (h.sound e he).1, (h.sound e he).2⟩
  bound := h.bound
  complete := fun hlt e he hread => h.complete hlt e ((hsame e hread).mpr he) hread

theorem selected_nil (h : ∀ e ∈ found, readable e = false) : Selected readable limit found [] where
  nodup := List.nodup_nil
  sound := fun _ he => absurd he List.not_mem_nil
  bound := Nat.zero_le _
  complete := fun _ e he hread => by simp [h e he] at hread

/-- An empty result promises nothing was there to read. -/
theorem Retrieved.unreadable (hlimit : 0 < limit) (h : Retrieved readable limit found []) :
    ∀ e ∈ found, readable e = false := by
  intro e he
  have hlen : 0 = min limit (distinctReadable readable found) := h.length
  cases hread : readable e with
  | false => rfl
  | true => exact absurd (h.complete (by omega) e he hread) List.not_mem_nil

end loop

/-! ### The query -/

section query
variable {V D S : Type} {db : Database V D} {sc : Scores S} {policy : PolicyStore}
  {principal : Option Principal} {params : BaseParams} {table : KgTable V}

/-- All full-text and substring matches, whoever may read them. -/
def textMatches (db : Database V D) (params : BaseParams) (table : KgTable V) : List Entity :=
  (table.rows.filter (relevant db params)).map rowToEntity

theorem mem_ftsEntities {e : Entity} : e ∈ ftsEntities db params table ↔
    ∃ row ∈ table.rows, ftsSelects db params row = true ∧ rowToEntity row = e := by
  simp only [ftsEntities, ftsRows, List.mem_map, List.mem_insertionSort, List.mem_filter, and_assoc]

theorem mem_textMatches {e : Entity} : e ∈ textMatches db params table ↔
    ∃ row ∈ table.rows, relevant db params row = true ∧ rowToEntity row = e := by
  simp only [textMatches, List.mem_map, List.mem_filter, and_assoc]

theorem mem_vectorEntities {qvec : V} {limit : ℕ} {e : Entity}
    (h : e ∈ vectorEntities db params qvec limit table) : ∃ row ∈ table.rows, rowToEntity row = e := by
  obtain ⟨row, hrow, rfl⟩ := List.mem_map.mp h
  have hsel := (db.scan_subperm _ _ _).subset (List.mem_of_mem_take hrow)
  exact ⟨row, (List.mem_filter.mp hsel).1, rfl⟩

/-- Entities read from the rows of one table are determined by their ids. -/
theorem idsUnique_of_rows (table : KgTable V) {found : List Entity}
    (h : ∀ e ∈ found, ∃ row ∈ table.rows, rowToEntity row = e) : IdsUnique found := by
  intro a ha b hb heq
  obtain ⟨r, hr, rfl⟩ := h a ha
  obtain ⟨s, hs, rfl⟩ := h b hb
  rw [Table.eq_of_key hr hs heq]

theorem idsUnique_vector_append {qvec : V} {limit : ℕ} {others : List Entity}
    (h : ∀ e ∈ others, ∃ row ∈ table.rows, rowToEntity row = e) :
    IdsUnique (vectorEntities db params qvec limit table ++ others) := by
  refine idsUnique_of_rows table fun e he => ?_
  rcases List.mem_append.mp he with he | he
  · exact mem_vectorEntities he
  · exact h e he

theorem idsUnique_fts {qvec : V} {limit : ℕ} :
    IdsUnique (vectorEntities db params qvec limit table ++ ftsEntities db params table) := by
  refine idsUnique_vector_append fun e he => ?_
  obtain ⟨row, hrow, -, heq⟩ := mem_ftsEntities.mp he
  exact ⟨row, hrow, heq⟩

theorem idsUnique_text {qvec : V} {limit : ℕ} :
    IdsUnique (vectorEntities db params qvec limit table ++ textMatches db params table) := by
  refine idsUnique_vector_append fun e he => ?_
  obtain ⟨row, hrow, -, heq⟩ := mem_textMatches.mp he
  exact ⟨row, hrow, heq⟩

/-- The readable matches are the readable rows of the full-text branch. -/
theorem mem_fts_iff_text {rt : TextRuntime} {text : String} {e : Entity}
    (hread : readableBy policy principal e = true) :
    e ∈ ftsEntities db (baseParams rt policy principal text) table ↔
      e ∈ textMatches db (baseParams rt policy principal text) table := by
  rw [mem_ftsEntities, mem_textMatches]
  refine exists_congr fun row => and_congr_right fun _ => and_congr_left ?_
  rintro rfl
  have hpred : rbacPredicate (baseParams rt policy principal text).toRbacParams row.acl = true :=
    rbacPredicate_of_canRead hread
  rw [ftsSelects, hpred, Bool.true_and]

/-- The pages of a statement whose parameters the database takes. -/
theorem fetchPage_ok {texts : List String} {rows : List Entity} {limit : ℕ} (h : Executable texts limit)
    (offset : ℕ) : fetchPage texts rows limit offset = .ok (Paging.page rows offset limit) :=
  execute_eq_ok.mpr ⟨h, rfl⟩

/-- Without a full-text row the loop ends before it looks at the vector candidates. -/
theorem hybridFuse_nil {readable : Entity → Bool} {texts : List String} {candidates : List Entity} {limit : ℕ}
    (hexec : Executable texts limit) (hlimit : 0 < limit) :
    hybridFuse sc readable texts [] candidates limit = .ok [] := by
  have hpage : Paging.page ([] : List Entity) 0 limit = [] := (Paging.page_eq_nil_iff hlimit).mpr le_rfl
  simp [hybridFuse, hybridLoop, fetchPage_ok hexec, hpage]

/-- A fusion that returns had parameters the database takes: the first page is always fetched. -/
theorem executable_of_hybridFuse {readable : Entity → Bool} {texts : List String}
    {rows candidates result : List Entity} {limit : ℕ} (hlimit : 0 < limit)
    (h : hybridFuse sc readable texts rows candidates limit = .ok result) : Executable texts limit := by
  simp only [hybridFuse, hybridLoop, List.length_nil, hlimit, if_true, Fallible.bind_eq_ok] at h
  obtain ⟨batch, hbatch, -⟩ := h
  exact (execute_eq_ok.mp hbatch).1

/-- Before the first page the vector candidates are known and nothing is considered. -/
theorem pageInv_start {readable : Entity → Bool} {rows candidates : List Entity} {limit : ℕ} :
    PageInv readable limit rows candidates 0
      { entitiesById := Dict.empty.setAll (·.id) candidates } where
  inv :=
    { known := by
        intro k e hget
        by_cases hk : k ∈ candidates.map (·.id)
        · obtain ⟨a, ha, hkey, hget'⟩ := Dict.get?_setAll_of_mem (·.id) candidates Dict.empty hk
          obtain rfl := Option.some.inj (hget'.symm.trans hget)
          exact ⟨List.mem_append_left _ ha, hkey⟩
        · have hnone :=
            Dict.get?_setAll_of_not_mem (·.id) candidates (Dict.empty : Dict String Entity) hk
          rw [hnone] at hget
          cases hget
      nodup := List.nodup_nil
      marked := fun _ he => absurd he List.not_mem_nil
      sound := fun _ he => absurd he List.not_mem_nil
      dealt := fun _ _ hcon => absurd hcon List.not_mem_nil
      bound := Nat.zero_le _ }
  held := by
    intro e he
    obtain ⟨a, -, -, hget⟩ :=
      Dict.get?_setAll_of_mem (·.id) candidates (Dict.empty : Dict String Entity) (List.mem_map_of_mem he)
    exact Option.isSome_iff_exists.mpr ⟨a, hget⟩
  read := fun _ he => absurd he List.not_mem_nil
  vector := fun hpos => absurd hpos (lt_irrefl 0)

theorem hybridFuse_selected {readable : Entity → Bool} {texts : List String} {rows candidates : List Entity}
    {limit : ℕ} (hexec : Executable texts limit) (hid : IdsUnique (candidates ++ rows)) (hrows : rows ≠ [])
    (hlimit : 0 < limit) : ∃ result, hybridFuse sc readable texts rows candidates limit = .ok result ∧
      Selected readable limit (candidates ++ rows) result :=
  hybridLoop_selected (fetchPage_ok hexec) hid hrows hlimit (by omega) pageInv_start

/-- Both statements of the hybrid query go through if the full-text statement does with the pool as its
    limit. -/
theorem Executable.of_pool {params : BaseParams} {limit : ℕ} (h : Executable params.texts (vectorPool limit)) :
    Executable params.toRbacParams.texts (vectorPool limit) ∧ Executable params.texts limit := by
  refine ⟨⟨?_, h.limit⟩, h.texts, (le_max_right _ _).trans h.limit⟩
  have htexts := h.texts
  rw [bindable, BaseParams.texts, List.all_append, Bool.and_eq_true] at htexts
  exact htexts.1

/-- With a working embedding the hybrid query returns if and only if the database takes its parameters, and
    then it is the fusion. -/
theorem hybridQuery_eq_ok {embedOne : String → Except PyError V} {text : String} {limit : ℕ} {qvec : V}
    {result : List Entity} (hlimit : 1 ≤ limit) (hembed : embedOne text = .ok qvec)
    (hfits : db.fits qvec = true) :
    hybridQuery db sc embedOne policy principal text params limit table = .ok result ↔
      Executable params.texts (vectorPool limit) ∧
        hybridFuse sc (readableBy policy principal) params.texts (ftsEntities db params table)
          (vectorEntities db params qvec limit table) limit = .ok result := by
  simp only [hybridQuery, hembed, Fallible.bind_eq_ok, execute_eq_ok, hfits, if_true]
  constructor
  · rintro ⟨candidates, ⟨haccess, rfl⟩, hfuse⟩
    exact ⟨⟨(executable_of_hybridFuse hlimit hfuse).texts, haccess.limit⟩, hfuse⟩
  · rintro ⟨hexec, hfuse⟩
    exact ⟨_, ⟨hexec.of_pool.1, rfl⟩, hfuse⟩

/-- With a working embedding the hybrid query keeps its promise exactly when the database takes its parameters
    and the full-text branch selects a row or no vector candidate is readable. -/
theorem hybridQuery_retrieves_iff (db : Database V D) (sc : Scores S)
    (embedOne : String → Except PyError V) (policy : PolicyStore) (principal : Option Principal)
    (rt : TextRuntime) (text : String) (limit : ℕ) (table : KgTable V) (qvec : V) (hlimit : 1 ≤ limit)
    (hembed : embedOne text = .ok qvec) (hfits : db.fits qvec = true) :
    (∃ result, hybridQuery db sc embedOne policy principal text (baseParams rt policy principal text) limit
        table = .ok result ∧
      Retrieved (readableBy policy principal) limit
        (vectorEntities db (baseParams rt policy principal text) qvec limit table ++
          textMatches db (baseParams rt policy principal text) table) result) ↔
    Executable (baseParams rt policy principal text).texts (vectorPool limit) ∧
      ((∃ row ∈ table.rows, ftsSelects db (baseParams rt policy principal text) row = true) ∨
        ∀ e ∈ vectorEntities db (baseParams rt policy principal text) qvec limit table,
          readableBy policy principal e = false) := by
  simp only [hybridQuery_eq_ok hlimit hembed hfits, and_assoc, exists_and_left]
  refine and_congr_right fun hexec => ?_
  have hpage := hexec.of_pool.2
  by_cases hfts : ∃ row ∈ table.rows, ftsSelects db (baseParams rt policy principal text) row = true
  · refine iff_of_true ?_ (Or.inl hfts)
    obtain ⟨row, hrow, hsel⟩ := hfts
    have hrows := List.ne_nil_of_mem (mem_ftsEntities.mpr ⟨row, hrow, hsel, rfl⟩)
    obtain ⟨result, hfuse, hselected⟩ := hybridFuse_selected hpage idsUnique_fts hrows hlimit
    refine ⟨result, hfuse, Selected.retrieved idsUnique_text (hselected.congr fun e hread => ?_)⟩
    rw [List.mem_append, List.mem_append, mem_fts_iff_text hread]
  · have hnil : ftsEntities db (baseParams rt policy principal text) table = [] := by
      refine List.eq_nil_iff_forall_not_mem.mpr fun e he => hfts ?_
      obtain ⟨row, hrow, hsel, -⟩ := mem_ftsEntities.mp he
      exact ⟨row, hrow, hsel⟩
    rw [hnil, hybridFuse_nil hpage hlimit, or_iff_right hfts]
    constructor
    · rintro ⟨result, hresult, h⟩ e he
      cases hresult
      exact h.unreadable hlimit e (List.mem_append_left _ he)
    · refine fun h => ⟨[], rfl, Selected.retrieved idsUnique_text (selected_nil fun e he => ?_)⟩
      rcases List.mem_append.mp he with he | he
      · exact h e he
      · cases hread : readableBy policy principal e with
        | false => rfl
        | true => exact absurd (hnil ▸ (mem_fts_iff_text hread).mpr he) List.not_mem_nil

/-! ### One row -/

/-- A database in which a text matches by the words it contains as they stand. -/
def wordDatabase : Database ℕ ℕ where
  tsMatch := fun document text => Like.like ("%" ++ text ++ "%") document
  ilike := Like.like
  idLe := fun a b => decide (a ≤ b)
  distance := fun x y => (x - y) + (y - x)
  distanceLe := fun x y => decide (x ≤ y)
  fits := fun _ => true
  scan := exactScan (fun x y => (x - y) + (y - x)) (fun x y => decide (x ≤ y))
  scan_subperm := exactScan_subperm _ _

/-- A public row with a vector. -/
def budgetTable : KgTable ℕ where
  rows := [⟨"n1", "doc", "budget", "spending plan", some [], .org, some 3⟩]
  nodup := by decide

/-- A query with a word of the row returns it. -/
theorem hybridQuery_retrieves_budget : ∃ result,
    hybridQuery wordDatabase ratScores (fun _ => .ok 4) DEFAULT_POLICY none "budget"
        (baseParams ⟨id, id⟩ DEFAULT_POLICY none "budget") 1 budgetTable = .ok result ∧
      Retrieved (readableBy DEFAULT_POLICY none) 1
        (vectorEntities wordDatabase (baseParams ⟨id, id⟩ DEFAULT_POLICY none "budget") 4 1 budgetTable ++
          textMatches wordDatabase (baseParams ⟨id, id⟩ DEFAULT_POLICY none "budget") budgetTable) result :=
  (hybridQuery_retrieves_iff wordDatabase ratScores (fun _ => .ok 4) DEFAULT_POLICY none ⟨id, id⟩ "budget" 1
    budgetTable 4 le_rfl rfl rfl).mpr
    ⟨⟨by decide, by decide⟩, Or.inl ⟨_, List.mem_cons_self, by decide⟩⟩

/-- A query about the same matter in another word does not, though the row is the nearest candidate. -/
theorem hybridQuery_misses_budget :
    hybridQuery wordDatabase ratScores (fun _ => .ok 4) DEFAULT_POLICY none "expenses"
        (baseParams ⟨id, id⟩ DEFAULT_POLICY none "expenses") 1 budgetTable = .ok [] ∧
    ¬∃ result, hybridQuery wordDatabase ratScores (fun _ => .ok 4) DEFAULT_POLICY none "expenses"
        (baseParams ⟨id, id⟩ DEFAULT_POLICY none "expenses") 1 budgetTable = .ok result ∧
      Retrieved (readableBy DEFAULT_POLICY none) 1
        (vectorEntities wordDatabase (baseParams ⟨id, id⟩ DEFAULT_POLICY none "expenses") 4 1 budgetTable ++
          textMatches wordDatabase (baseParams ⟨id, id⟩ DEFAULT_POLICY none "expenses") budgetTable) result := by
  have hempty : hybridQuery wordDatabase ratScores (fun _ => .ok 4) DEFAULT_POLICY none "expenses"
      (baseParams ⟨id, id⟩ DEFAULT_POLICY none "expenses") 1 budgetTable = .ok [] := by decide +kernel
  refine ⟨hempty, ?_⟩
  rintro ⟨result, hresult, h⟩
  cases hempty.symm.trans hresult
  exact absurd h.length (by decide +kernel)

end query

end Atlas
