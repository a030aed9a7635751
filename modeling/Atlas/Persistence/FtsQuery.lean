import Atlas.Persistence.HybridQuery

/-! The full-text path. It reads the matching rows page by page, re-filters each page and stops at the
    limit or at a short page; what it has kept is always the readable part of what it has read, cut at the
    limit (`collectReadable_eq`), so it returns the first `limit` readable matches, and the rows in between
    that the principal may not read play no part (`ftsQuery_first_readable`), provided that the database
    takes the parameters. -/

namespace Atlas

/-! ### The loop -/

section loop
variable {readable : Entity → Bool} {rows : List Entity} {limit : ℕ}

/-- The inner loop keeps the readable rows of a page, as far as the limit allows. -/
theorem collectReadable_eq {batch results : List Entity} (h : results.length < limit) :
    collectReadable readable limit batch results = (results ++ batch.filter readable).take limit := by
  induction batch generalizing results with
  | nil => rw [collectReadable, List.filter_nil, List.append_nil, List.take_of_length_le h.le]
  | cons entity batch ih =>
    rw [collectReadable, List.filter_cons]
    cases hread : readable entity with
    | false => exact ih h
    | true =>
      have hassoc : results ++ entity :: batch.filter readable =
          results ++ [entity] ++ batch.filter readable := by rw [List.append_assoc, List.singleton_append]
      rw [if_pos rfl, if_pos rfl, hassoc]
      split
      next hfull =>
        have hlen : (results ++ [entity]).length = limit := by
          rw [List.length_append, List.length_singleton] at hfull ⊢
          omega
        rw [← hlen, List.take_left]
      next hopen => exact ih (not_le.mp hopen)

/-- Rows past `limit` readable ones play no part. -/
theorem take_filter_take {n : ℕ} (h : limit ≤ ((rows.take n).filter readable).length) :
    ((rows.take n).filter readable).take limit = (rows.filter readable).take limit := by
  conv_rhs => rw [← List.take_append_drop n rows, List.filter_append]
  rw [List.take_append_of_le_length h]

/-- From what was kept of the rows read so far, the loop goes on to the first `limit` readable rows; it
    ends by itself before its bound. -/
theorem ftsLoop_eq {fetch : ℕ → Except PyError (List Entity)}
    (hfetch : ∀ offset, fetch offset = .ok (Paging.page rows offset limit)) (hlimit : 0 < limit)
    {fuel offset : ℕ} (hfuel : rows.length < offset + fuel)
    (hroom : ((rows.take offset).filter readable).length < limit) :
    ftsLoop readable fetch limit fuel offset ((rows.take offset).filter readable) =
      .ok ((rows.filter readable).take limit) := by
  have hread : ∀ n, rows.length ≤ n → ((rows.take n).filter readable).length < limit →
      (rows.take n).filter readable = (rows.filter readable).take limit := by
    intro n hn hlt
    rw [List.take_of_length_le hn] at hlt ⊢
    rw [List.take_of_length_le hlt.le]
  induction fuel generalizing offset with
  | zero => exact congrArg _ (hread offset hfuel.le hroom)
  | succ fuel ih =>
    rw [ftsLoop, if_pos hroom, hfetch, Fallible.ok_bind]
    simp only
    have hkept : collectReadable readable limit (Paging.page rows offset limit)
        ((rows.take offset).filter readable) =
          ((rows.take (offset + (Paging.page rows offset limit).length)).filter readable).take limit := by
      rw [collectReadable_eq hroom, ← List.filter_append, Paging.take_offset_add_length]
    split
    next hempty =>
      have hend := (Paging.page_eq_nil_iff hlimit).mp (List.isEmpty_iff.mp hempty)
      exact congrArg _ (hread offset hend hroom)
    next hne =>
      rw [hkept]
      split
      next hfull =>
        rw [List.length_take] at hfull
        exact congrArg _ (take_filter_take (by omega))
      next hopen =>
        rw [List.length_take] at hopen
        rw [List.take_of_length_le (by omega)]
        split
        next hshort => exact congrArg _ (hread _ (Paging.length_le_of_short hshort) (by omega))
        next hlong => exact ih (by omega) (by omega)

/-- A run from the start keeps the first `limit` readable rows. -/
theorem ftsQuery_eq {texts : List String} (h : Executable texts limit) (readable : Entity → Bool)
    (rows : List Entity) (hlimit : 1 ≤ limit) :
    ftsQuery readable texts rows limit = .ok ((rows.filter readable).take limit) :=
  ftsLoop_eq (fetchPage_ok h) hlimit (by omega) hlimit

/-- A statement that raises does so on the first page. -/
theorem ftsQuery_raises {texts : List String} {error : PyError} (h : execute texts limit () = .error error)
    (hlimit : 1 ≤ limit) : ftsQuery readable texts rows limit = .error error := by
  have hroom : ([] : List Entity).length < limit := hlimit
  rw [ftsQuery, ftsLoop, if_pos hroom, fetchPage, execute_error h, Fallible.error_bind]

/-- A query that returns had parameters the database takes. -/
theorem executable_of_ftsQuery {texts : List String} {result : List Entity} (hlimit : 1 ≤ limit)
    (h : ftsQuery readable texts rows limit = .ok result) : Executable texts limit := by
  cases hexec : execute texts limit () with
  | error error =>
    rw [ftsQuery_raises hexec hlimit] at h
    cases h
  | ok _ => exact (execute_eq_ok.mp hexec).1

end loop

/-! ### The query -/

/-- The collation is a linear order of the ids. -/
structure IdOrder (idLe : String → String → Bool) : Prop where
  total : ∀ a b, idLe a b = true ∨ idLe b a = true
  trans : ∀ a b c, idLe a b = true → idLe b c = true → idLe a c = true
  antisymm : ∀ a b, idLe a b = true → idLe b a = true → a = b

section query
variable {V D : Type}

/-- Relevant, let through by the SQL predicate, and readable. -/
def visible (db : Database V D) (policy : PolicyStore) (principal : Option Principal) (params : BaseParams)
    (row : KgRow V) : Bool :=
  relevant db params row && rbacPredicate params.toRbacParams row.acl &&
    readableBy policy principal (rowToEntity row)

/-- The visible rows in id order. -/
def visibleRows (db : Database V D) (policy : PolicyStore) (principal : Option Principal)
    (params : BaseParams) (table : KgTable V) : List (KgRow V) :=
  (table.rows.filter (visible db policy principal params)).insertionSort
    (fun a b => db.idLe a.id b.id = true)

variable {db : Database V D} {policy : PolicyStore} {principal : Option Principal} {params : BaseParams}

theorem IdOrder.total_rows (h : IdOrder db.idLe) :
    Std.Total (fun a b : KgRow V => db.idLe a.id b.id = true) := ⟨fun a b => h.total a.id b.id⟩

theorem IdOrder.trans_rows (h : IdOrder db.idLe) :
    IsTrans (KgRow V) (fun a b => db.idLe a.id b.id = true) := ⟨fun a b c => h.trans a.id b.id c.id⟩

/-- The readable rows of the full-text branch are the visible rows. -/
theorem filter_ftsEntities (hid : IdOrder db.idLe) (table : KgTable V) :
    (ftsEntities db params table).filter (readableBy policy principal) =
      (visibleRows db policy principal params table).map rowToEntity := by
  have := hid.total_rows (V := V)
  have := hid.trans_rows (V := V)
  have hvisible : (table.rows.filter (ftsSelects db params)).filter
      (readableBy policy principal ∘ rowToEntity) =
        table.rows.filter (visible db policy principal params) := by
    rw [List.filter_filter]
    refine List.filter_congr fun row _ => ?_
    rw [visible, ftsSelects, Function.comp_apply, Bool.and_comm, Bool.and_comm (rbacPredicate _ _)]
  rw [ftsEntities, List.filter_map, ftsRows, Table.filter_insertionSort, hvisible, visibleRows]
  intro a ha b hb hab hba
  exact Table.eq_of_key (List.mem_of_mem_filter ha) (List.mem_of_mem_filter hb) (hid.antisymm _ _ hab hba)

/-- Two tables that hold the same visible rows have them in the same order. -/
theorem visibleRows_congr (hid : IdOrder db.idLe) {table table' : KgTable V}
    (h : ∀ row, visible db policy principal params row = true → (row ∈ table'.rows ↔ row ∈ table.rows)) :
    visibleRows db policy principal params table' = visibleRows db policy principal params table := by
  have := hid.total_rows (V := V)
  have := hid.trans_rows (V := V)
  refine Table.insertionSort_eq_of_perm ?_ ?_
  · refine (List.perm_ext_iff_of_nodup (table'.nodup.of_map _ |>.filter _)
      (table.nodup.of_map _ |>.filter _)).mpr fun row => ?_
    rw [List.mem_filter, List.mem_filter]
    exact and_congr_left fun hvis => h row hvis
  · intro a ha b hb hab hba
    exact Table.eq_of_key (List.mem_of_mem_filter ha) (List.mem_of_mem_filter hb) (hid.antisymm _ _ hab hba)

/-- For parameters the database takes, `_fts_query` ends by itself and returns the first `limit` readable
    rows of the full-text branch: in the order of the ids these are the first `limit` visible rows of the
    table, whatever else it holds. -/
theorem ftsQuery_first_readable (db : Database V D) (policy : PolicyStore) (principal : Option Principal)
    (params : BaseParams) (limit : ℕ) (table : KgTable V) (hlimit : 1 ≤ limit)
    (hbind : bindable params.texts = true) (hbigint : limit ≤ BIGINT_MAX) :
    (∀ fuel, (ftsEntities db params table).length < fuel →
      ftsLoop (readableBy policy principal) (fetchPage params.texts (ftsEntities db params table) limit)
          limit fuel 0 [] =
        ftsQuery (readableBy policy principal) params.texts (ftsEntities db params table) limit) ∧
    ftsQuery (readableBy policy principal) params.texts (ftsEntities db params table) limit =
      .ok (((ftsEntities db params table).filter (readableBy policy principal)).take limit) ∧
    (IdOrder db.idLe →
      ftsQuery (readableBy policy principal) params.texts (ftsEntities db params table) limit =
        .ok (((visibleRows db policy principal params table).map rowToEntity).take limit) ∧
      ∀ table' : KgTable V, (∀ row, visible db policy principal params row = true →
        (row ∈ table'.rows ↔ row ∈ table.rows)) →
        ftsQuery (readableBy policy principal) params.texts (ftsEntities db params table') limit =
          ftsQuery (readableBy policy principal) params.texts (ftsEntities db params table) limit) := by
  have hexec : Executable params.texts limit := ⟨hbind, hbigint⟩
  have hloop : ∀ (table : KgTable V) fuel, (ftsEntities db params table).length < fuel →
      ftsLoop (readableBy policy principal) (fetchPage params.texts (ftsEntities db params table) limit)
          limit fuel 0 [] =
        .ok (((ftsEntities db params table).filter (readableBy policy principal)).take limit) := by
    intro table fuel hfuel
    exact ftsLoop_eq (fetchPage_ok hexec) hlimit (by omega) hlimit
  have hquery : ∀ table : KgTable V,
      ftsQuery (readableBy policy principal) params.texts (ftsEntities db params table) limit =
        .ok (((ftsEntities db params table).filter (readableBy policy principal)).take limit) :=
    fun table => ftsQuery_eq hexec _ _ hlimit
  refine ⟨fun fuel hfuel => (hloop table fuel hfuel).trans (hquery table).symm, hquery table, fun hid => ?_⟩
  refine ⟨by rw [hquery, filter_ftsEntities hid], fun table' hsame => ?_⟩
  rw [hquery, hquery, filter_ftsEntities hid, filter_ftsEntities hid, visibleRows_congr hid hsame]

/-- A note of another user between two public rows. -/
def sharedTable : KgTable ℕ where
  rows := [⟨"n1", "doc", "budget", "plan", some [], .org, none⟩,
    ⟨"n2", "doc", "budget", "diary", some ["kg:read:user:bob"], .personal, none⟩,
    ⟨"n3", "doc", "budget", "report", some [], .org, none⟩]
  nodup := by decide

theorem wordDatabase_idOrder : IdOrder wordDatabase.idLe where
  total a b := by simpa [wordDatabase] using le_total a b
  trans a b c := by simpa [wordDatabase] using le_trans
  antisymm a b := by simpa [wordDatabase] using le_antisymm

/-- A limit of two is filled with the two public rows. -/
theorem ftsQuery_first_readable_shared :
    ftsQuery (readableBy DEFAULT_POLICY none) (baseParams ⟨id, id⟩ DEFAULT_POLICY none "budget").texts
        (ftsEntities wordDatabase (baseParams ⟨id, id⟩ DEFAULT_POLICY none "budget") sharedTable) 2 =
      .ok (((visibleRows wordDatabase DEFAULT_POLICY none (baseParams ⟨id, id⟩ DEFAULT_POLICY none "budget")
        sharedTable).map rowToEntity).take 2) :=
  ((ftsQuery_first_readable wordDatabase DEFAULT_POLICY none (baseParams ⟨id, id⟩ DEFAULT_POLICY none "budget")
    2 sharedTable (by decide) (by decide) (by decide)).2.2 wordDatabase_idOrder).1

/-- A query text with a NUL is not bound, and a limit beyond `bigint` is not taken: the query raises and
    returns no rows. -/
theorem ftsQuery_raises_nul :
    ftsQuery (readableBy DEFAULT_POLICY none)
        (baseParams ⟨id, id⟩ DEFAULT_POLICY none "budget\x00").texts
        (ftsEntities wordDatabase (baseParams ⟨id, id⟩ DEFAULT_POLICY none "budget\x00") sharedTable) 2 =
      .error dataError ∧
    ftsQuery (readableBy DEFAULT_POLICY none) (baseParams ⟨id, id⟩ DEFAULT_POLICY none "budget").texts
        (ftsEntities wordDatabase (baseParams ⟨id, id⟩ DEFAULT_POLICY none "budget") sharedTable)
        (BIGINT_MAX + 1) = .error numericValueOutOfRange := by
  constructor
  · decide
  · exact ftsQuery_raises (by decide) (by decide)

end query

end Atlas
