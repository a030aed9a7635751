import Atlas.Knowledge.Interfaces
import Atlas.Json

/-! The in-memory knowledge graph: a mapping of entities under their ids and a list of edges without
    repeats, both carried as invariants of the structure. `persist_extraction` replaces what one source
    document had contributed; a failure anywhere in it restores the snapshot. The lemmas say, for each
    operation, what every lookup and every edge test answers afterwards. -/

namespace Atlas

open Text

/-- The functions of the language's runtime the knowledge layer calls on text. -/
structure TextRuntime where
  lower : String → String
  casefold : String → String

structure InMemoryKnowledgeGraph where
  entities : Dict String Entity := Dict.empty
  relations : List Relation := []
  policy : Option PolicyStore := none
  keyed : ∀ k e, entities.get? k = some e → e.id = k
  distinct : relations.Nodup

namespace InMemoryKnowledgeGraph

/-- `InMemoryKnowledgeGraph(policy)`. -/
def empty (policy : Option PolicyStore) : InMemoryKnowledgeGraph where
  policy := policy
  keyed := by simp
  distinct := List.nodup_nil

def upsertEntity (g : InMemoryKnowledgeGraph) (entity : Entity) : InMemoryKnowledgeGraph where
  entities := g.entities.set entity.id entity
  relations := g.relations
  policy := g.policy
  keyed := fun k e h => by
    rw [Dict.get?_set] at h
    split at h
    next hk => cases h; exact hk.symm
    next => exact g.keyed k e h
  distinct := g.distinct

/-- An edge already present is not added again. -/
def addRelation (g : InMemoryKnowledgeGraph) (relation : Relation) : InMemoryKnowledgeGraph where
  entities := g.entities
  relations := if relation ∈ g.relations then g.relations else g.relations ++ [relation]
  policy := g.policy
  keyed := g.keyed
  distinct := by
    split
    next => exact g.distinct
    next h => exact g.distinct.append (List.nodup_singleton relation) (by simpa using h)

/-- Does an edge touch an entity whose id has the prefix? -/
def touches (pre : String) (relation : Relation) : Bool :=
  hasPrefix pre relation.srcId || hasPrefix pre relation.dstId

/-- Drop the entities with the prefix, and the edges that touch it. -/
def dropPrefix (g : InMemoryKnowledgeGraph) (pre : String) : InMemoryKnowledgeGraph where
  entities := g.entities.filterKeys (fun entityId => !hasPrefix pre entityId)
  relations := g.relations.filter (fun relation => !touches pre relation)
  policy := g.policy
  keyed := fun k e h => by
    rw [Dict.get?_filterKeys] at h
    split at h
    next => exact g.keyed k e h
    next => cases h
  distinct := g.distinct.filter _

/-- A loop of writes, the `i`-th of which raises if `fails i` says so. -/
def writeLoop {α : Type} (fails : ℕ → Option PyError)
    (write : InMemoryKnowledgeGraph → α → InMemoryKnowledgeGraph) :
    ℕ → List α → InMemoryKnowledgeGraph → Except PyError InMemoryKnowledgeGraph
  | _, [], g => .ok g
  | i, x :: xs, g =>
    match fails i with
    | some e => .error e
    | none => writeLoop fails write (i + 1) xs (write g x)

/-- `persist_extraction`: the error, if a step raises, and the graph left behind, which after an error
    is the snapshot. -/
def persistExtraction (g : InMemoryKnowledgeGraph) (fails : ℕ → Option PyError)
    (ownerSegment sourceId : String) (entities : List Entity) (relations : List Relation) :
    Except PyError Unit × InMemoryKnowledgeGraph :=
  let written := do
    let g ← writeLoop fails upsertEntity 0 entities
      (g.dropPrefix (extractionEntityPrefix ownerSegment sourceId))
    writeLoop fails addRelation entities.length relations g
  match written with
  | .ok g' => (.ok (), g')
  | .error e => (.error e, g)

/-- `matches[:limit]`. -/
def sliceTo {α : Type} (limit : ℤ) (l : List α) : List α :=
  if 0 ≤ limit then l.take limit.toNat else l.take (l.length - limit.natAbs)

/-- `query`: readable entities first, then keyword matching, then the cap. -/
def query (rt : TextRuntime) (g : InMemoryKnowledgeGraph) (principal : Option Principal) (text : String)
    (limit : ℤ) : List Entity :=
  let terms := split (rt.lower text)
  sliceTo limit (g.entities.values.filter (fun entity =>
    canRead principal entity g.policy &&
      (terms.isEmpty ||
        terms.any (occursIn · (rt.lower (entity.name ++ "\n" ++ entity.content))))))

/-- The graph behind the interface the planner uses. -/
def toKnowledgeGraph (rt : TextRuntime) (g : InMemoryKnowledgeGraph) : KnowledgeGraph where
  query := fun principal text limit => .ok (g.query rt principal text limit)

/-! ### What each operation leaves -/

variable {g : InMemoryKnowledgeGraph}

theorem mem_addRelation (r s : Relation) :
    s ∈ (g.addRelation r).relations ↔ s ∈ g.relations ∨ s = r := by
  rw [addRelation]
  split
  next h => exact ⟨Or.inl, fun hs => hs.elim id (fun he => he ▸ h)⟩
  next => rw [List.mem_append, List.mem_singleton]

theorem get?_dropPrefix (pre k : String) :
    (g.dropPrefix pre).entities.get? k = if hasPrefix pre k = true then none else g.entities.get? k := by
  rw [dropPrefix, Dict.get?_filterKeys]
  by_cases h : hasPrefix pre k = true <;> simp [h]

theorem mem_dropPrefix (pre : String) (r : Relation) :
    r ∈ (g.dropPrefix pre).relations ↔ r ∈ g.relations ∧ touches pre r = false := by
  rw [dropPrefix, List.mem_filter, Bool.not_eq_true']

/-- Upserting a list of entities, in order. -/
def upsertAll (g : InMemoryKnowledgeGraph) (es : List Entity) : InMemoryKnowledgeGraph :=
  es.foldl upsertEntity g

/-- Adding a list of edges, in order. -/
def addAll (g : InMemoryKnowledgeGraph) (rs : List Relation) : InMemoryKnowledgeGraph :=
  rs.foldl addRelation g

@[simp] theorem relations_upsertAll (es : List Entity) : (g.upsertAll es).relations = g.relations := by
  induction es generalizing g with
  | nil => rfl
  | cons e es ih => exact ih (g := g.upsertEntity e)

theorem entities_upsertAll (es : List Entity) :
    (g.upsertAll es).entities = g.entities.setAll (·.id) es := by
  induction es generalizing g with
  | nil => rfl
  | cons e es ih => exact ih (g := g.upsertEntity e)

theorem get?_upsertAll_of_not_mem {es : List Entity} {k : String} (h : k ∉ es.map (·.id)) :
    (g.upsertAll es).entities.get? k = g.entities.get? k := by
  rw [entities_upsertAll, Dict.get?_setAll_of_not_mem _ es _ h]

theorem get?_upsertAll_of_mem {es : List Entity} {k : String} (h : k ∈ es.map (·.id)) :
    ∃ e ∈ es, e.id = k ∧ (g.upsertAll es).entities.get? k = some e := by
  rw [entities_upsertAll]
  exact Dict.get?_setAll_of_mem _ es _ h

theorem get?_upsertAll_congr {g' : InMemoryKnowledgeGraph} {es : List Entity} {k : String}
    (h : k ∈ es.map (·.id) ∨ g.entities.get? k = g'.entities.get? k) :
    (g.upsertAll es).entities.get? k = (g'.upsertAll es).entities.get? k := by
  rw [entities_upsertAll, entities_upsertAll]
  exact Dict.get?_setAll_congr _ h

@[simp] theorem entities_addAll (rs : List Relation) : (g.addAll rs).entities = g.entities := by
  induction rs generalizing g with
  | nil => rfl
  | cons r rs ih => exact ih (g := g.addRelation r)

theorem mem_addAll (rs : List Relation) (s : Relation) :
    s ∈ (g.addAll rs).relations ↔ s ∈ g.relations ∨ s ∈ rs := by
  induction rs generalizing g with
  | nil => simp [addAll]
  | cons r rs ih =>
    rw [addAll, List.foldl_cons, ← addAll, ih, mem_addRelation, List.mem_cons, or_assoc]

/-- New edges, no two of them the same, go to the end in order. -/
theorem relations_addAll_of_new {rs : List Relation} (hnodup : rs.Nodup) (hnew : ∀ r ∈ rs, r ∉ g.relations) :
    (g.addAll rs).relations = g.relations ++ rs := by
  induction rs generalizing g with
  | nil => exact (List.append_nil _).symm
  | cons r rs ih =>
    rw [List.nodup_cons] at hnodup
    have hr : (g.addRelation r).relations = g.relations ++ [r] := if_neg (hnew r List.mem_cons_self)
    rw [addAll, List.foldl_cons, ← addAll, ih hnodup.2, hr, List.append_assoc, List.singleton_append]
    intro s hs
    rw [mem_addRelation, not_or]
    exact ⟨hnew s (List.mem_cons_of_mem _ hs), fun he => hnodup.1 (he ▸ hs)⟩

/-! ### Persisting an extraction -/

/-- A write loop whose steps do not raise is the plain loop. -/
theorem writeLoop_eq_ok {α : Type} {fails : ℕ → Option PyError}
    {write : InMemoryKnowledgeGraph → α → InMemoryKnowledgeGraph} {i : ℕ} {xs : List α}
    {g : InMemoryKnowledgeGraph} (h : ∀ j, i ≤ j → j < i + xs.length → fails j = none) :
    writeLoop fails write i xs g = .ok (xs.foldl write g) := by
  induction xs generalizing i g with
  | nil => rfl
  | cons x xs ih =>
    rw [List.length_cons] at h
    rw [writeLoop, h i (le_refl i) (by omega)]
    exact ih (fun j hj hlt => h j (by omega) (by omega))

/-- A write loop that meets a raising step ends with an error. -/
theorem writeLoop_eq_error {α : Type} {fails : ℕ → Option PyError}
    (write : InMemoryKnowledgeGraph → α → InMemoryKnowledgeGraph) (xs : List α)
    (g : InMemoryKnowledgeGraph) {i j : ℕ} (hij : i ≤ j) (hj : j < i + xs.length) (h : fails j ≠ none) :
    ∃ e, writeLoop fails write i xs g = .error e := by
  induction xs generalizing i g with
  | nil => rw [List.length_nil] at hj; omega
  | cons x xs ih =>
    rw [List.length_cons] at hj
    rw [writeLoop]
    cases hf : fails i with
    | some e => exact ⟨e, rfl⟩
    | none =>
      have hne : i ≠ j := by rintro rfl; exact h hf
      exact ih (write g x) (by omega) (by omega)

/-- None of the first `n` writes raises. -/
def quiet (fails : ℕ → Option PyError) (n : ℕ) : Bool := (List.range n).all (fun i => (fails i).isNone)

theorem quiet_iff {fails : ℕ → Option PyError} {n : ℕ} :
    quiet fails n = true ↔ ∀ j < n, fails j = none := by
  simp [quiet]

/-- The graph after an undisturbed `persist_extraction`. -/
def replaceExtraction (g : InMemoryKnowledgeGraph) (pre : String) (es : List Entity)
    (rs : List Relation) : InMemoryKnowledgeGraph :=
  ((g.dropPrefix pre).upsertAll es).addAll rs

theorem persistExtraction_of_quiet {fails : ℕ → Option PyError} {ownerSegment sourceId : String}
    {es : List Entity} {rs : List Relation} (h : quiet fails (es.length + rs.length) = true) :
    g.persistExtraction fails ownerSegment sourceId es rs =
      (.ok (), g.replaceExtraction (extractionEntityPrefix ownerSegment sourceId) es rs) := by
  rw [quiet_iff] at h
  rw [persistExtraction, writeLoop_eq_ok (fun j _ hj => h j (by omega)), Fallible.ok_bind,
    writeLoop_eq_ok (fun j _ hj => h j (by omega))]
  rfl

/-- All or nothing: a raising step leaves the snapshot. -/
theorem persistExtraction_of_not_quiet {fails : ℕ → Option PyError} (g : InMemoryKnowledgeGraph)
    (ownerSegment sourceId : String) {es : List Entity} {rs : List Relation}
    (h : quiet fails (es.length + rs.length) = false) :
    ∃ e, g.persistExtraction fails ownerSegment sourceId es rs = (.error e, g) := by
  rw [← Bool.not_eq_true, quiet_iff] at h
  push Not at h
  obtain ⟨j, hj, hf⟩ := h
  rw [persistExtraction]
  by_cases hes : ∀ j < es.length, fails j = none
  · have hle : es.length ≤ j := by
      by_contra hlt
      exact hf (hes j (by omega))
    rw [writeLoop_eq_ok (fun j _ hj => hes j (by omega)), Fallible.ok_bind]
    obtain ⟨e, he⟩ := writeLoop_eq_error addRelation rs
      (es.foldl upsertEntity (g.dropPrefix (extractionEntityPrefix ownerSegment sourceId))) hle hj hf
    exact ⟨e, by rw [he]⟩
  · push Not at hes
    obtain ⟨k, hk, hfk⟩ := hes
    obtain ⟨e, he⟩ := writeLoop_eq_error upsertEntity es
      (g.dropPrefix (extractionEntityPrefix ownerSegment sourceId)) (Nat.zero_le k) (by omega) hfk
    exact ⟨e, by rw [he, Fallible.error_bind]⟩

theorem mem_replaceExtraction {pre : String} {es : List Entity} {rs : List Relation} {r : Relation} :
    r ∈ (g.replaceExtraction pre es rs).relations ↔
      (r ∈ g.relations ∧ touches pre r = false) ∨ r ∈ rs := by
  rw [replaceExtraction, mem_addAll, relations_upsertAll, mem_dropPrefix]

/-- An id outside the prefix, and none of the upserted ones, keeps its entity. -/
theorem get?_replaceExtraction_of_not_mem {pre k : String} {es : List Entity} {rs : List Relation}
    (hk : hasPrefix pre k = false) (hmem : k ∉ es.map (·.id)) :
    (g.replaceExtraction pre es rs).entities.get? k = g.entities.get? k := by
  rw [replaceExtraction, entities_addAll, get?_upsertAll_of_not_mem hmem, get?_dropPrefix,
    if_neg (by simp [hk])]

/-- Under the prefix, and under the upserted ids, what was there before plays no part. -/
theorem get?_replaceExtraction_congr {g' : InMemoryKnowledgeGraph} {pre k : String} {es : List Entity}
    {rs : List Relation} (h : hasPrefix pre k = true ∨ g.entities.get? k = g'.entities.get? k) :
    (g.replaceExtraction pre es rs).entities.get? k = (g'.replaceExtraction pre es rs).entities.get? k := by
  rw [replaceExtraction, replaceExtraction, entities_addAll, entities_addAll]
  refine get?_upsertAll_congr (Or.inr ?_)
  rw [get?_dropPrefix, get?_dropPrefix]
  split
  next => rfl
  next hk => exact h.resolve_left hk

/-- Whatever a lookup finds after the replacement was there before or was upserted. -/
theorem get?_replaceExtraction {pre k : String} {es : List Entity} {rs : List Relation} {e : Entity}
    (h : (g.replaceExtraction pre es rs).entities.get? k = some e) :
    g.entities.get? k = some e ∨ e ∈ es := by
  rw [replaceExtraction, entities_addAll] at h
  by_cases hmem : k ∈ es.map (·.id)
  · obtain ⟨e', he', -, hget⟩ := get?_upsertAll_of_mem (g := g.dropPrefix pre) hmem
    rw [hget, Option.some.injEq] at h
    exact Or.inr (h ▸ he')
  · rw [get?_upsertAll_of_not_mem hmem, get?_dropPrefix] at h
    split at h
    next => cases h
    next => exact Or.inl h

/-! ### Queries -/

theorem mem_sliceTo {α : Type} {limit : ℤ} {l : List α} {x : α} (h : x ∈ sliceTo limit l) : x ∈ l := by
  rw [sliceTo] at h
  split at h <;> exact List.mem_of_mem_take h

/-- Everything a query returns is stored and readable. -/
theorem readable_of_mem_query {rt : TextRuntime} {principal : Option Principal} {text : String}
    {limit : ℤ} {e : Entity} (h : e ∈ g.query rt principal text limit) :
    g.entities.get? e.id = some e ∧ canRead principal e g.policy = true := by
  obtain ⟨hval, hread⟩ := List.mem_filter.mp (mem_sliceTo h)
  rw [Bool.and_eq_true] at hread
  obtain ⟨k, hk⟩ := Dict.mem_values_iff.mp hval
  rw [g.keyed k e hk]
  exact ⟨hk, hread.1⟩

end InMemoryKnowledgeGraph

end Atlas
