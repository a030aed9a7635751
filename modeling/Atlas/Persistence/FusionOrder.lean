import Atlas.Lib.Ranking
import Atlas.Persistence.FtsQuery

/-! The order of the hybrid query. It fuses the vector ranking with the full-text rows read so far and puts
    out what is new after each page, so it emits by page first and by score second. `hybridFuse_ids` says
    so for the loop; `hybridQuery_fuses_iff` says exactly when the first results are those of the fusion of
    the complete rankings: when no id among them is overtaken by a page read earlier. -/

namespace Atlas

open Ranking

/-- The ranking fused after the page in place `n`. -/
def pageRanking {S : Type} (sc : Scores S) (limit : ℕ) (ftsIds vecIds : List String) (n : ℕ) : List String :=
  rrfFuse sc RRF_K [ftsIds.take ((n + 1) * limit), vecIds]

/-- The id of a readable entity among those found. -/
def readableId (readable : Entity → Bool) (found : List Entity) (id : String) : Bool :=
  found.any (fun e => e.id == id && readable e)

theorem mem_pageRanking {S : Type} {sc : Scores S} {limit n : ℕ} {ids ids' : List String} {x : String} :
    x ∈ pageRanking sc limit ids ids' n ↔ x ∈ ids.take ((n + 1) * limit) ∨ x ∈ ids' := mem_rrfFuse_pair

/-! ### The loop puts out by page -/

section loop
variable {S : Type} {sc : Scores S} {readable : Entity → Bool} {limit : ℕ} {found : List Entity}

theorem readableId_of_known (hid : IdsUnique found) {e : Entity} (he : e ∈ found) :
    readableId readable found e.id = readable e := by
  rw [Bool.eq_iff_iff, readableId, List.any_eq_true]
  constructor
  · rintro ⟨a, ha, h⟩
    rw [Bool.and_eq_true, beq_iff_eq] at h
    rw [← hid a ha e he h.1]
    exact h.2
  · exact fun h => ⟨e, he, by rw [h, beq_self_eq_true, Bool.and_self]⟩

/-- A scan puts out, in the order of the ranking, the readable ids not considered before, up to the limit;
    short of the limit it considers the whole ranking. -/
theorem scan_ids (hid : IdsUnique found) {fused : List String} {st : HybridState}
    (h : ScanInv readable limit found st) (hroom : st.results.length < limit) (hnodup : fused.Nodup)
    (hknown : ∀ x ∈ fused, (st.entitiesById.get? x).isSome = true) :
    (st.scan readable limit fused).results.map (·.id) =
        (st.results.map (·.id) ++
          (fused.filter (· ∉ st.considered)).filter (readableId readable found)).take limit ∧
      ((st.scan readable limit fused).results.length < limit →
        ∀ x, x ∈ (st.scan readable limit fused).considered ↔ x ∈ st.considered ∨ x ∈ fused) := by
  induction fused generalizing st with
  | nil =>
    rw [HybridState.scan, List.filter_nil, List.filter_nil, List.append_nil,
      List.take_of_length_le (by rw [List.length_map]; exact hroom.le)]
    exact ⟨rfl, fun _ x => (or_iff_left List.not_mem_nil).symm⟩
  | cons x fused ih =>
    rw [List.nodup_cons] at hnodup
    have hrest : ∀ y ∈ fused, (st.entitiesById.get? y).isSome = true :=
      fun y hy => hknown y (List.mem_cons_of_mem _ hy)
    rw [HybridState.scan]
    by_cases hcon : x ∈ st.considered
    · obtain ⟨hids, hconsidered⟩ := ih h hroom hnodup.2 hrest
      rw [if_pos hcon, List.filter_cons, if_neg (by simpa using hcon)]
      refine ⟨hids, fun hlt y => (hconsidered hlt y).trans ?_⟩
      rw [List.mem_cons]
      exact ⟨fun hy => hy.imp_right Or.inr, by rintro (hy | rfl | hy) <;> tauto⟩
    · obtain ⟨e, hget⟩ := Option.isSome_iff_exists.mp (hknown x List.mem_cons_self)
      obtain ⟨he, rfl⟩ := h.known x e hget
      have hfilter : fused.filter (· ∉ e.id :: st.considered) = fused.filter (· ∉ st.considered) := by
        refine List.filter_congr fun y hy => ?_
        have hne : y ≠ e.id := by rintro rfl; exact hnodup.1 hy
        simp [hne]
      have hmem : ∀ y, y ∈ e.id :: st.considered ∨ y ∈ fused ↔ y ∈ st.considered ∨ y ∈ e.id :: fused := by
        intro y
        rw [List.mem_cons, List.mem_cons]
        tauto
      rw [if_neg hcon, hget, List.filter_cons, if_pos (by simpa using hcon), List.filter_cons,
        readableId_of_known hid he]
      cases hread : readable e with
      | false =>
        obtain ⟨hids, hconsidered⟩ := ih (h.skip hid he hread) hroom hnodup.2 hrest
        simp only [hread, Bool.false_eq_true, if_false]
        refine ⟨by rw [hids, hfilter], fun hlt y => ?_⟩
        rw [hconsidered hlt y, hmem]
      | true =>
        have hkeep := h.keep hid he hcon hread hroom
        have hsplit : ∀ rest, st.results.map (·.id) ++ e.id :: rest =
            (st.results ++ [e]).map (·.id) ++ rest := by
          intro rest
          rw [List.map_append, List.map_singleton, List.append_assoc, List.singleton_append]
        simp only [hread, if_true, hsplit]
        by_cases hfull : limit ≤ (st.results ++ [e]).length
        · rw [if_pos hfull]
          refine ⟨?_, fun hlt => absurd hfull (not_le.mpr hlt)⟩
          have hlen : limit = ((st.results ++ [e]).map (·.id)).length := by
            rw [List.length_append, List.length_singleton] at hfull
            rw [List.length_map, List.length_append, List.length_singleton]
            omega
          conv_rhs => rw [hlen]
          rw [List.take_left]
        · obtain ⟨hids, hconsidered⟩ := ih hkeep (not_le.mp hfull) hnodup.2 hrest
          rw [if_neg hfull]
          refine ⟨by rw [hids, hfilter], fun hlt y => ?_⟩
          rw [hconsidered hlt y, hmem]

/-! ### Pages -/

theorem ftsIds_foldl_absorb {batch : List Entity} {st : HybridState}
    (h : (st.ftsIds ++ batch.map (·.id)).Nodup) :
    (batch.foldl HybridState.absorb st).ftsIds = st.ftsIds ++ batch.map (·.id) := by
  induction batch generalizing st with
  | nil => exact (List.append_nil _).symm
  | cons e batch ih =>
    have hnew : e.id ∉ st.ftsIds := by
      intro hmem
      exact (List.nodup_append.mp h).2.2 _ hmem _ List.mem_cons_self rfl
    have habs : (st.absorb e).ftsIds = st.ftsIds ++ [e.id] := if_neg hnew
    have hassoc : st.ftsIds ++ (e :: batch).map (·.id) = (st.absorb e).ftsIds ++ batch.map (·.id) := by
      rw [habs, List.append_assoc, List.singleton_append, List.map_cons]
    rw [hassoc] at h ⊢
    exact ih h

variable {rows candidates : List Entity}

/-- The ranking after each page, of the rows and candidates of a query. -/
def rounds (sc : Scores S) (limit : ℕ) (rows candidates : List Entity) : ℕ → List String :=
  pageRanking sc limit (rows.map (·.id)) (candidates.map (·.id))

theorem nodup_rounds (n : ℕ) : (rounds sc limit rows candidates n).Nodup := nodup_rrfFuse _ _

theorem mem_rounds {n : ℕ} {x : String} : x ∈ rounds sc limit rows candidates n ↔
    x ∈ (rows.take ((n + 1) * limit)).map (·.id) ∨ x ∈ candidates.map (·.id) := by
  rw [rounds, mem_pageRanking, List.map_take]

/-- What the loop has done when `n` full pages are read: it put out the readable part of what the first `n`
    rounds emit. -/
structure OrderInv (sc : Scores S) (readable : Entity → Bool) (limit : ℕ) (rows candidates : List Entity)
    (n : ℕ) (st : HybridState) : Prop where
  page : PageInv readable limit rows candidates (n * limit) st
  held : ∀ e ∈ rows.take (n * limit), (st.entitiesById.get? e.id).isSome = true
  ranked : st.ftsIds = (rows.take (n * limit)).map (·.id)
  considered : ∀ x, x ∈ st.considered ↔ x ∈ emit (rounds sc limit rows candidates) n
  ids : st.results.map (·.id) =
    (emit (rounds sc limit rows candidates) n).filter (readableId readable (candidates ++ rows))

/-- With a page read, the rows known and ranked are those of one page more. -/
theorem OrderInv.absorb {n : ℕ} {st : HybridState} (hnodup : (rows.map (·.id)).Nodup)
    (h : OrderInv sc readable limit rows candidates n st) :
    let st₁ := (Paging.page rows (n * limit) limit).foldl HybridState.absorb st
    st₁.ftsIds = (rows.take ((n + 1) * limit)).map (·.id) ∧
      (∀ e ∈ rows.take ((n + 1) * limit), (st₁.entitiesById.get? e.id).isSome = true) ∧
      ∀ x ∈ rounds sc limit rows candidates n, (st₁.entitiesById.get? x).isSome = true := by
  intro st₁
  have habs := absorbed_foldl (Paging.page rows (n * limit) limit) st
  have hread : rows.take (n * limit) ++ Paging.page rows (n * limit) limit = rows.take ((n + 1) * limit) := by
    rw [Paging.take_append_page, Nat.add_mul, Nat.one_mul]
  have hheld : ∀ e ∈ rows.take ((n + 1) * limit), (st₁.entitiesById.get? e.id).isSome = true := by
    intro e he
    rw [← hread, List.mem_append] at he
    rcases he with he | he
    · exact habs.held _ (h.held e he)
    · exact (habs.rows e he).1
  refine ⟨?_, hheld, fun x hx => ?_⟩
  · rw [ftsIds_foldl_absorb, h.ranked, ← List.map_append, hread]
    rw [h.ranked, ← List.map_append, hread, List.map_take]
    exact hnodup.sublist (List.take_sublist _ _)
  · rcases mem_rounds.mp hx with hx | hx
    · obtain ⟨e, he, rfl⟩ := List.mem_map.mp hx
      exact hheld e he
    · obtain ⟨e, he, rfl⟩ := List.mem_map.mp hx
      exact habs.held _ (h.page.held e he)

/-- A page puts out the next round; a full page that leaves room keeps the invariant. -/
theorem OrderInv.next {n : ℕ} {st : HybridState} (hid : IdsUnique (candidates ++ rows))
    (hnodup : (rows.map (·.id)).Nodup) (h : OrderInv sc readable limit rows candidates n st)
    (hroom : st.results.length < limit) :
    let batch := Paging.page rows (n * limit) limit
    let st' := st.page sc readable limit (candidates.map (·.id)) batch
    st'.results.map (·.id) = ((emit (rounds sc limit rows candidates) (n + 1)).filter
        (readableId readable (candidates ++ rows))).take limit ∧
      (st'.results.length < limit → batch.length = limit →
        OrderInv sc readable limit rows candidates (n + 1) st') := by
  intro batch st'
  obtain ⟨hranked, hheld, hknown⟩ := h.absorb hnodup
  have habs := absorbed_foldl batch st
  have hinv := habs.inv h.page.inv fun e he => List.mem_append_right _ (mem_rows_of_mem_page he)
  have hround : rrfFuse sc RRF_K [(batch.foldl HybridState.absorb st).ftsIds, candidates.map (·.id)] =
      rounds sc limit rows candidates n := by
    rw [hranked, rounds, pageRanking, List.map_take]
  have hst' : st' = (batch.foldl HybridState.absorb st).scan readable limit
      (rounds sc limit rows candidates n) := by rw [← hround]; rfl
  have hroom' : (batch.foldl HybridState.absorb st).results.length < limit := habs.results ▸ hroom
  obtain ⟨hids, hconsidered⟩ := scan_ids hid hinv hroom' (nodup_rounds n) hknown
  have hscan : Scanned readable limit (candidates ++ rows) (rounds sc limit rows candidates n)
      (batch.foldl HybridState.absorb st) st' := hst' ▸ scan_spec hid hinv hroom'
  rw [← hst'] at hids hconsidered
  have hemit : (emit (rounds sc limit rows candidates) (n + 1)).filter
      (readableId readable (candidates ++ rows)) = (batch.foldl HybridState.absorb st).results.map (·.id) ++
        ((rounds sc limit rows candidates n).filter
          (· ∉ (batch.foldl HybridState.absorb st).considered)).filter
            (readableId readable (candidates ++ rows)) := by
    rw [emit, List.filter_append, habs.results, ← h.ids, habs.considered]
    simp only [h.considered]
  rw [← hemit] at hids
  refine ⟨hids, fun hlt hfull => ?_⟩
  have hnext : n * limit + batch.length = (n + 1) * limit := by rw [hfull, Nat.add_mul, Nat.one_mul]
  refine ⟨hnext ▸ (h.page.page sc hid hroom).2 hlt, fun e he => ?_, ?_, fun x => ?_, ?_⟩
  · rw [hscan.entities]
    exact hheld e he
  · rw [hscan.ranking, hranked]
  · rw [hconsidered hlt x, habs.considered, h.considered, emit, List.mem_append, List.mem_filter,
      decide_eq_true_eq]
    tauto
  · rw [hids, List.take_of_length_le]
    have hlen := congrArg List.length hids
    rw [List.length_map, List.length_take] at hlen
    omega

/-- Once all rows are read, further rounds put out nothing. -/
theorem emit_rounds_of_all {n k : ℕ} (hn : 0 < n) (hall : rows.length ≤ n * limit) (h : n ≤ k) :
    emit (rounds sc limit rows candidates) k = emit (rounds sc limit rows candidates) n := by
  refine emit_eq_of_subset h fun j _ _ x hx => mem_emit.mpr ⟨n - 1, by omega, ?_⟩
  rw [mem_rounds, Nat.sub_add_cancel hn, List.take_of_length_le hall]
  rw [mem_rounds] at hx
  exact hx.imp_left fun hx => ((List.take_sublist _ _).map _).subset hx

/-- All there is to put out. -/
def emitted (sc : Scores S) (limit : ℕ) (rows candidates : List Entity) : List String :=
  emit (rounds sc limit rows candidates) rows.length

theorem emitted_eq {n : ℕ} (hlimit : 0 < limit) (hn : 0 < n) (hrows : rows ≠ [])
    (hall : rows.length ≤ n * limit) :
    emitted sc limit rows candidates = emit (rounds sc limit rows candidates) n := by
  have hpos : 0 < rows.length := List.length_pos_iff.mpr hrows
  rcases Nat.le_total n rows.length with h | h
  · exact emit_rounds_of_all hn hall h
  · exact (emit_rounds_of_all hpos (Nat.le_mul_of_pos_right _ hlimit) h).symm

/-- Once all rows are read, everything that is put out is in the results. -/
theorem OrderInv.all_read {n : ℕ} {st : HybridState} (hlimit : 0 < limit) (hrows : rows ≠ [])
    (h : OrderInv sc readable limit rows candidates n st) (hroom : st.results.length < limit)
    (hall : rows.length ≤ n * limit) :
    st.results.map (·.id) =
      ((emitted sc limit rows candidates).filter (readableId readable (candidates ++ rows))).take limit := by
  have hpos : 0 < rows.length := List.length_pos_iff.mpr hrows
  have hn : 0 < n := by
    by_contra hzero
    rw [Nat.eq_zero_of_not_pos hzero, Nat.zero_mul] at hall
    omega
  rw [emitted_eq hlimit hn hrows hall, ← h.ids, List.take_of_length_le]
  rw [List.length_map]
  exact hroom.le

/-- The loop returns the first `limit` readable ids of all that is put out. -/
theorem hybridLoop_ids {fetch : ℕ → Except PyError (List Entity)}
    (hfetch : ∀ offset, fetch offset = .ok (Paging.page rows offset limit))
    (hid : IdsUnique (candidates ++ rows)) (hnodup : (rows.map (·.id)).Nodup)
    (hrows : rows ≠ []) (hlimit : 0 < limit) {fuel n : ℕ} {st : HybridState}
    (hfuel : rows.length < n * limit + fuel) (h : OrderInv sc readable limit rows candidates n st)
    (hroom : st.results.length < limit) :
    ∃ result, hybridLoop sc readable fetch (candidates.map (·.id)) limit fuel (n * limit) st = .ok result ∧
      result.map (·.id) =
        ((emitted sc limit rows candidates).filter (readableId readable (candidates ++ rows))).take limit := by
  induction fuel generalizing n st with
  | zero => exact ⟨_, rfl, h.all_read hlimit hrows hroom hfuel.le⟩
  | succ fuel ih =>
    obtain ⟨hids, hnext⟩ := h.next hid hnodup hroom
    rw [hybridLoop, if_pos hroom, hfetch, Fallible.ok_bind]
    simp only
    split
    next hempty =>
      have hend := (Paging.page_eq_nil_iff hlimit).mp (List.isEmpty_iff.mp hempty)
      exact ⟨_, rfl, h.all_read hlimit hrows hroom hend⟩
    next hne =>
      have hlt : n * limit < rows.length := by
        by_contra hge
        exact hne (List.isEmpty_iff.mpr ((Paging.page_eq_nil_iff hlimit).mpr (not_lt.mp hge)))
      split
      next hfull =>
        -- the limit is reached: what later rounds put out comes behind
        have hn : n + 1 ≤ rows.length := by
          have := Nat.le_mul_of_pos_right n hlimit
          omega
        have hfront : emit (rounds sc limit rows candidates) (n + 1) <+: emitted sc limit rows candidates :=
          emit_prefix hn
        obtain ⟨rest, hrest⟩ := hfront
        have hlen := congrArg List.length hids
        rw [List.length_map, List.length_take] at hlen
        refine ⟨_, rfl, ?_⟩
        rw [hids, ← hrest, List.filter_append, List.take_append_of_le_length (by omega)]
      next hopen =>
        split
        next hshort =>
          have hall : rows.length ≤ (n + 1) * limit := by
            have hend := Paging.length_le_of_short hshort
            rw [Nat.add_mul, Nat.one_mul]
            omega
          exact ⟨_, rfl, by rw [hids, emitted_eq hlimit (Nat.succ_pos n) hrows hall]⟩
        next hlong =>
          have hbatch : (Paging.page rows (n * limit) limit).length = limit := by
            rw [Paging.length_page] at hlong ⊢
            omega
          have hinv := hnext (not_le.mp hopen) hbatch
          have hoffset : n * limit + (Paging.page rows (n * limit) limit).length = (n + 1) * limit := by
            rw [hbatch, Nat.add_mul, Nat.one_mul]
          rw [hoffset]
          exact ih (by omega) hinv (not_le.mp hopen)

/-- Before the first page nothing is put out. -/
theorem orderInv_start : OrderInv sc readable limit rows candidates 0
    { entitiesById := Dict.empty.setAll (·.id) candidates } where
  page := by rw [Nat.zero_mul]; exact pageInv_start
  held := by rw [Nat.zero_mul]; exact fun _ he => absurd he List.not_mem_nil
  ranked := by rw [Nat.zero_mul]; rfl
  considered := fun _ => Iff.rfl
  ids := rfl

theorem hybridFuse_ids {texts : List String} (hexec : Executable texts limit)
    (hid : IdsUnique (candidates ++ rows)) (hnodup : (rows.map (·.id)).Nodup)
    (hrows : rows ≠ []) (hlimit : 0 < limit) :
    ∃ result, hybridFuse sc readable texts rows candidates limit = .ok result ∧
      result.map (·.id) =
        ((emitted sc limit rows candidates).filter (readableId readable (candidates ++ rows))).take limit := by
  have hfuel : rows.length < 0 * limit + (rows.length + 1) := by omega
  have hstart : OrderInv sc readable limit rows candidates 0
      { entitiesById := Dict.empty.setAll (·.id) candidates } := orderInv_start
  have h := hybridLoop_ids (fetchPage_ok hexec) hid hnodup hrows hlimit hfuel hstart hlimit
  rwa [Nat.zero_mul] at h

/-! ### Against the complete fusion -/

/-- The fusion of the complete full-text ranking with the vector ranking, less the ids that are not readable. -/
def completeFusion (sc : Scores S) (readable : Entity → Bool) (rows candidates : List Entity) : List String :=
  (rrfFuse sc RRF_K [rows.map (·.id), candidates.map (·.id)]).filter
    (readableId readable (candidates ++ rows))

/-- No id is overtaken: each of the first `limit` readable ids of the complete fusion is ranked on an earlier
    page than those behind it, or on the same page and ahead of them there. -/
def NoneOvertaken (sc : Scores S) (readable : Entity → Bool) (limit : ℕ) (rows candidates : List Entity) :
    Prop :=
  Agrees (Precedes (rounds sc limit rows candidates)) limit (completeFusion sc readable rows candidates)

/-- All that is put out is all that is ranked. -/
theorem emitted_perm (hlimit : 0 < limit) (hrows : rows ≠ []) :
    (emitted sc limit rows candidates).Perm (rrfFuse sc RRF_K [rows.map (·.id), candidates.map (·.id)]) := by
  refine (List.perm_ext_iff_of_nodup (nodup_emit nodup_rounds _) (nodup_rrfFuse _ _)).mpr fun x => ?_
  have hpos : 0 < rows.length := List.length_pos_iff.mpr hrows
  change x ∈ emit (rounds sc limit rows candidates) rows.length ↔ _
  rw [mem_emit, mem_rrfFuse_pair]
  constructor
  · rintro ⟨n, -, hx⟩
    exact (mem_rounds.mp hx).imp_left fun hx => ((List.take_sublist _ _).map _).subset hx
  · intro hx
    refine ⟨rows.length - 1, by omega, mem_rounds.mpr ?_⟩
    rwa [Nat.sub_add_cancel hpos, List.take_of_length_le (Nat.le_mul_of_pos_right _ hlimit)]

theorem hybridFuse_fuses_iff {texts : List String} (hexec : Executable texts limit)
    (hid : IdsUnique (candidates ++ rows)) (hnodup : (rows.map (·.id)).Nodup)
    (hrows : rows ≠ []) (hlimit : 0 < limit) :
    (∃ result, hybridFuse sc readable texts rows candidates limit = .ok result ∧
        result.map (·.id) = (completeFusion sc readable rows candidates).take limit) ↔
      NoneOvertaken sc readable limit rows candidates := by
  have hreturns : ∃ result, hybridFuse sc readable texts rows candidates limit = .ok result ∧ _ :=
    hybridFuse_ids hexec hid hnodup hrows hlimit
  obtain ⟨result, hfuse, hids⟩ := hreturns
  have htake : result.map (·.id) = (completeFusion sc readable rows candidates).take limit ↔
      NoneOvertaken sc readable limit rows candidates := by
    rw [hids]
    exact take_eq_take_iff (fun _ _ => precedes_asymm) ((pairwise_emit nodup_rounds _).filter _)
      ((emitted_perm hlimit hrows).filter _) limit
  refine Iff.trans ⟨?_, fun h => ⟨result, hfuse, h⟩⟩ htake
  rintro ⟨other, hother, h⟩
  cases hfuse.symm.trans hother
  exact h

/-- With all rows on the first page nothing is overtaken. -/
theorem noneOvertaken_of_one_page (h : rows.length ≤ limit) :
    NoneOvertaken sc readable limit rows candidates := by
  have hround : rounds sc limit rows candidates 0 =
      rrfFuse sc RRF_K [rows.map (·.id), candidates.map (·.id)] := by
    rw [rounds, pageRanking, Nat.zero_add, Nat.one_mul,
      List.take_of_length_le (by rw [List.length_map]; exact h)]
  intro i j x y hij _ hx hy
  obtain ⟨hi, rfl⟩ := List.getElem?_eq_some_iff.mp hx
  obtain ⟨hj, rfl⟩ := List.getElem?_eq_some_iff.mp hy
  refine ⟨0, ?_, fun k hk => absurd hk (Nat.not_lt_zero k), fun _ => ?_⟩
  · rw [hround]
    exact List.mem_of_mem_filter (List.getElem_mem hi)
  · rw [hround]
    exact List.pairwise_iff_getElem.mp ((pairwise_idxOf (nodup_rrfFuse _ _)).filter _) i j hi hj hij

end loop

/-! ### The query -/

section query
variable {V D S : Type} {db : Database V D} {params : BaseParams}

theorem nodup_ids_ftsEntities (table : KgTable V) : ((ftsEntities db params table).map (·.id)).Nodup := by
  have hids : (ftsEntities db params table).map (·.id) = (ftsRows db params table).map (·.id) := by
    rw [ftsEntities, List.map_map]; rfl
  rw [hids]
  exact ((List.perm_insertionSort _ _).map _).nodup_iff.mpr
    (table.nodup.sublist (List.filter_sublist.map _))

/-- With a working embedding and at least one full-text match, the hybrid query returns the first `limit`
    readable ids of the fusion of the complete rankings if and only if the database takes its parameters and
    none of these ids is overtaken. -/
theorem hybridQuery_fuses_iff (db : Database V D) (sc : Scores S) (embedOne : String → Except PyError V)
    (policy : PolicyStore) (principal : Option Principal) (text : String) (params : BaseParams) (limit : ℕ)
    (table : KgTable V) (qvec : V) (hlimit : 1 ≤ limit) (hembed : embedOne text = .ok qvec)
    (hfits : db.fits qvec = true) (hfts : ∃ row ∈ table.rows, ftsSelects db params row = true) :
    (∃ result, hybridQuery db sc embedOne policy principal text params limit table = .ok result ∧
        result.map (·.id) =
          (completeFusion sc (readableBy policy principal) (ftsEntities db params table)
            (vectorEntities db params qvec limit table)).take limit) ↔
      Executable params.texts (vectorPool limit) ∧
        NoneOvertaken sc (readableBy policy principal) limit (ftsEntities db params table)
          (vectorEntities db params qvec limit table) := by
  obtain ⟨row, hrow, hsel⟩ := hfts
  have hrows : ftsEntities db params table ≠ [] :=
    List.ne_nil_of_mem (mem_ftsEntities.mpr ⟨row, hrow, hsel, rfl⟩)
  simp only [hybridQuery_eq_ok hlimit hembed hfits, and_assoc, exists_and_left]
  refine and_congr_right fun hexec => ?_
  exact hybridFuse_fuses_iff hexec.of_pool.2 idsUnique_fts (nodup_ids_ftsEntities table) hrows hlimit

/-! ### Two pages -/

/-- A role with an identity string among its permissions: the statements select bob's rows for it, and the
    re-filter drops them. -/
def clerkPolicy : PolicyStore := inMemoryPolicyStore (Dict.empty.set "clerk" ["kg:read:user:bob"])

def clerk : Principal := { userId := "ann", roles := ["clerk"] }

/-- Three matching rows; the first is bob's, and the second has a vector. -/
def pagedTable : KgTable ℕ where
  rows := [⟨"n1", "doc", "budget", "diary", some ["kg:read:user:bob"], .personal, none⟩,
    ⟨"n2", "doc", "budget", "plan", some [], .org, some 3⟩,
    ⟨"n3", "doc", "budget", "report", some [], .org, none⟩]
  nodup := by decide

/-- With a limit of two, the row on the second page follows the readable one of the first. -/
theorem hybridQuery_fuses_budget : ∃ result,
    hybridQuery wordDatabase ratScores (fun _ => .ok 4) clerkPolicy (some clerk) "budget"
        (baseParams ⟨id, id⟩ clerkPolicy (some clerk) "budget") 2 pagedTable = .ok result ∧
      result.map (·.id) =
        (completeFusion ratScores (readableBy clerkPolicy (some clerk))
          (ftsEntities wordDatabase (baseParams ⟨id, id⟩ clerkPolicy (some clerk) "budget") pagedTable)
          (vectorEntities wordDatabase (baseParams ⟨id, id⟩ clerkPolicy (some clerk) "budget") 4 2
            pagedTable)).take 2 := by
  refine (hybridQuery_fuses_iff wordDatabase ratScores (fun _ => .ok 4) clerkPolicy (some clerk) "budget"
    (baseParams ⟨id, id⟩ clerkPolicy (some clerk) "budget") 2 pagedTable 4 (by decide) rfl rfl
    ⟨_, List.mem_cons_self, by decide⟩).mpr ⟨⟨by decide, by decide⟩, ?_⟩
  have hfusion : completeFusion ratScores (readableBy clerkPolicy (some clerk))
      (ftsEntities wordDatabase (baseParams ⟨id, id⟩ clerkPolicy (some clerk) "budget") pagedTable)
      (vectorEntities wordDatabase (baseParams ⟨id, id⟩ clerkPolicy (some clerk) "budget") 4 2 pagedTable) =
        ["n2", "n3"] := by decide +kernel
  rw [NoneOvertaken, hfusion, agrees_cons, agrees_cons]
  refine ⟨fun y hy => ?_, fun y hy => absurd hy List.not_mem_nil,
    fun _ _ _ _ _ hi => absurd hi (Nat.not_lt_zero _)⟩
  obtain rfl := List.mem_singleton.mp hy
  -- the first page ranks the second row, and not the third
  refine ⟨0, by decide +kernel, fun k hk => absurd hk (Nat.not_lt_zero k),
    fun h => absurd h (by decide +kernel)⟩

/-! ### An id that is overtaken -/

/-- Two public rows, of which only the second has a vector. -/
def reportTable : KgTable ℕ where
  rows := [⟨"n1", "doc", "budget", "plan", some [], .org, none⟩,
    ⟨"n2", "doc", "budget", "report", some [], .org, some 4⟩]
  nodup := by decide

/-- The second row is in both rankings and leads their fusion, but with a limit of one the first page ends
    before it, and the first row is returned. -/
theorem hybridQuery_overtakes :
    (∃ row ∈ reportTable.rows,
      ftsSelects wordDatabase (baseParams ⟨id, id⟩ DEFAULT_POLICY none "budget") row = true) ∧
    (hybridQuery wordDatabase ratScores (fun _ => .ok 4) DEFAULT_POLICY none "budget"
        (baseParams ⟨id, id⟩ DEFAULT_POLICY none "budget") 1 reportTable).map (·.map (·.id)) = .ok ["n1"] ∧
    (completeFusion ratScores (readableBy DEFAULT_POLICY none)
        (ftsEntities wordDatabase (baseParams ⟨id, id⟩ DEFAULT_POLICY none "budget") reportTable)
        (vectorEntities wordDatabase (baseParams ⟨id, id⟩ DEFAULT_POLICY none "budget") 4 1
          reportTable)).take 1 = ["n2"] :=
  ⟨⟨_, List.mem_cons_self, by decide⟩, by decide +kernel, by decide +kernel⟩

end query

end Atlas
