import Atlas.Knowledge.Ingestion

/-! Isolation of personal knowledge over whole histories. Every entity in a graph was written by one
    call of the history (`written_of_stored`), and what a call writes carries the acl the server
    resolved for it. A personal acl is one identity entry, which no role grant satisfies, so a query
    only ever returns personal knowledge to the user who ingested it. -/

namespace Atlas

open InMemoryKnowledgeGraph

/-- One call of `IngestionService.ingest`: the service as configured then, who calls it with what, and
    which writes of `persist_extraction` raise. -/
structure IngestCall where
  service : IngestionService
  fails : ℕ → Option PyError := fun _ => none
  principal : Option Principal
  document : IngestDocument

namespace IngestCall
variable (rt : IngestRuntime) (c : IngestCall)

/-- The state after the call. -/
def apply (st : KnowledgeState) : KnowledgeState :=
  (ingest rt c.service c.fails c.principal c.document st).2

/-- The entities the call writes: its windows and, if the enrichment persists, the extracted ones. -/
def writtenEntities : List Entity :=
  match planIngest rt c.service c.principal c.document with
  | .error _ => []
  | .ok (_, plan) =>
    chunkEntities c.document plan ++
      ((extractionOf rt c.service c.document plan c.fails).map (·.1)).getD []

/-- The edges the call writes. -/
def writtenRelations : List Relation :=
  match planIngest rt c.service c.principal c.document with
  | .error _ => []
  | .ok (_, plan) => ((extractionOf rt c.service c.document plan c.fails).map (·.2)).getD []

variable {rt c}

section accepted
variable {who : Principal} {plan : IngestPlan}
  (hplan : planIngest rt c.service c.principal c.document = .ok (who, plan))
include hplan

theorem mem_writtenEntities_of_ok {e : Entity} : e ∈ c.writtenEntities rt ↔
    e ∈ chunkEntities c.document plan ∨
      ∃ es rs, extractionOf rt c.service c.document plan c.fails = some (es, rs) ∧ e ∈ es := by
  rw [writtenEntities, hplan]
  cases hx : extractionOf rt c.service c.document plan c.fails with
  | none => simp [hx]
  | some p => obtain ⟨es, rs⟩ := p; simp [hx]

theorem mem_writtenRelations_of_ok {r : Relation} : r ∈ c.writtenRelations rt ↔
    ∃ es rs, extractionOf rt c.service c.document plan c.fails = some (es, rs) ∧ r ∈ rs := by
  rw [writtenRelations, hplan]
  cases hx : extractionOf rt c.service c.document plan c.fails with
  | none => simp [hx]
  | some p => obtain ⟨es, rs⟩ := p; simp [hx]

/-- Everything an accepted call writes carries the acl and the scope of its plan. -/
theorem acl_of_written {e : Entity} (h : e ∈ c.writtenEntities rt) :
    e.acl = plan.acl ∧ e.scope = plan.scope := by
  rcases (mem_writtenEntities_of_ok hplan).mp h with hmem | ⟨es, rs, hx, hmem⟩
  · exact ⟨(mem_chunkEntities hmem).1, (mem_chunkEntities hmem).2.1⟩
  · exact ⟨(mem_extractionOf hx hmem).1, (mem_extractionOf hx hmem).2.1⟩

end accepted

theorem mem_writtenEntities {e : Entity} : e ∈ c.writtenEntities rt ↔
    ∃ who plan, planIngest rt c.service c.principal c.document = .ok (who, plan) ∧
      (e ∈ chunkEntities c.document plan ∨
        ∃ es rs, extractionOf rt c.service c.document plan c.fails = some (es, rs) ∧ e ∈ es) := by
  constructor
  · intro h
    cases hplan : planIngest rt c.service c.principal c.document with
    | error err => rw [writtenEntities, hplan] at h; cases h
    | ok r => exact ⟨r.1, r.2, rfl, (mem_writtenEntities_of_ok hplan).mp h⟩
  · rintro ⟨who, plan, hplan, h⟩
    exact (mem_writtenEntities_of_ok hplan).mpr h

theorem mem_writtenRelations {r : Relation} : r ∈ c.writtenRelations rt ↔
    ∃ who plan es rs, planIngest rt c.service c.principal c.document = .ok (who, plan) ∧
      extractionOf rt c.service c.document plan c.fails = some (es, rs) ∧ r ∈ rs := by
  constructor
  · intro h
    cases hplan : planIngest rt c.service c.principal c.document with
    | error err => rw [writtenRelations, hplan] at h; cases h
    | ok res =>
      obtain ⟨es, rs, hx, hr⟩ := (mem_writtenRelations_of_ok hplan).mp h
      exact ⟨res.1, res.2, es, rs, rfl, hx, hr⟩
  · rintro ⟨who, plan, es, rs, hplan, hx, hr⟩
    exact (mem_writtenRelations_of_ok hplan).mpr ⟨es, rs, hx, hr⟩

/-- Everything a call writes carries the scope and the acl the server resolved for it. -/
theorem acl_of_mem_writtenEntities {e : Entity} (h : e ∈ c.writtenEntities rt) :
    ∃ who owner, c.principal = some who ∧
      resolveScopeAcl c.service.policy who c.document = .ok (e.scope, e.acl, owner) := by
  obtain ⟨who, plan, hplan, -⟩ := mem_writtenEntities.mp h
  obtain ⟨hwho, -, hres, -⟩ := admit_eq_ok hplan
  obtain ⟨hacl, hscope⟩ := acl_of_written hplan h
  exact ⟨who, plan.ownerSegment, hwho, by rw [hacl, hscope, hres]⟩

/-- What a personal call writes carries the caller's identity entry and nothing else. -/
theorem personal_acl_of_mem {e : Entity} (hscope : c.document.scope = .personal)
    (h : e ∈ c.writtenEntities rt) :
    ∃ who, c.principal = some who ∧ e.acl = [identityAcl who.userId] := by
  obtain ⟨who, owner, hwho, hres⟩ := acl_of_mem_writtenEntities h
  exact ⟨who, hwho, (resolveScopeAcl_personal hscope hres).2.1⟩

/-- Whatever is stored after a call was stored before it or written by it. -/
theorem stored_apply {st : KnowledgeState} {k : String} {e : Entity}
    (h : (c.apply rt st).graph.entities.get? k = some e) :
    st.graph.entities.get? k = some e ∨ e ∈ c.writtenEntities rt := by
  rw [apply] at h
  cases hplan : planIngest rt c.service c.principal c.document with
  | error err => rw [ingest_of_error st hplan] at h; exact Or.inl h
  | ok r =>
    obtain ⟨who, plan⟩ := r
    rw [ingest_graph st hplan] at h
    have hchunks : (st.graph.upsertAll (chunkEntities c.document plan)).entities.get? k = some e →
        st.graph.entities.get? k = some e ∨ e ∈ c.writtenEntities rt := by
      intro h
      by_cases hk : k ∈ (chunkEntities c.document plan).map (·.id)
      · obtain ⟨e', he', -, hget⟩ := get?_upsertAll_of_mem (g := st.graph) hk
        rw [hget, Option.some.injEq] at h
        exact Or.inr (mem_writtenEntities.mpr ⟨who, plan, hplan, Or.inl (h ▸ he')⟩)
      · rw [get?_upsertAll_of_not_mem hk] at h
        exact Or.inl h
    cases hx : extractionOf rt c.service c.document plan c.fails with
    | none => rw [hx] at h; exact hchunks h
    | some p =>
      obtain ⟨es, rs⟩ := p
      rw [hx] at h
      rcases get?_replaceExtraction h with h | he
      · exact hchunks h
      · exact Or.inr (mem_writtenEntities.mpr ⟨who, plan, hplan, Or.inr ⟨es, rs, hx, he⟩⟩)

end IngestCall

/-- A history of ingest calls. -/
def ingestAll (rt : IngestRuntime) (calls : List IngestCall) (st : KnowledgeState) : KnowledgeState :=
  calls.foldl (fun st c => c.apply rt st) st

/-- Over a whole history: whatever is stored was there at the start or was written by one call. -/
theorem written_of_stored {rt : IngestRuntime} {calls : List IngestCall} {st : KnowledgeState}
    {k : String} {e : Entity} (h : (ingestAll rt calls st).graph.entities.get? k = some e) :
    st.graph.entities.get? k = some e ∨ ∃ c ∈ calls, e ∈ c.writtenEntities rt := by
  induction calls generalizing st with
  | nil => exact Or.inl h
  | cons c calls ih =>
    rcases ih h with h | ⟨c', hc', he⟩
    · rcases IngestCall.stored_apply h with h | he
      · exact Or.inl h
      · exact Or.inr ⟨c, List.mem_cons_self, he⟩
    · exact Or.inr ⟨c', List.mem_cons_of_mem _ hc', he⟩

/-- A reader of an entity that a personal call wrote is the user who made the call. -/
theorem reader_of_personal {rt : IngestRuntime} {c : IngestCall} {e : Entity} {q : Option Principal}
    {policy : Option PolicyStore} (hscope : c.document.scope = .personal)
    (hmem : e ∈ c.writtenEntities rt) (hread : canRead q e policy = true) :
    ∃ who reader, c.principal = some who ∧ q = some reader ∧ reader.userId = who.userId := by
  obtain ⟨who, hwho, hacl⟩ := IngestCall.personal_acl_of_mem hscope hmem
  rw [canRead_iff, hacl] at hread
  rcases hread with hnil | ⟨entry, hentry, hadmits⟩
  · cases hnil
  · rw [List.mem_singleton.mp hentry, admits_identityAcl] at hadmits
    obtain ⟨reader, hq, huser⟩ := hadmits
    exact ⟨who, reader, hwho, hq, huser⟩

/-- Queries over knowledge from any history of ingests: a returned entity was written by a call of the
    history, personal knowledge goes to the user who ingested it and to nobody else, and everything
    ever written carries the acl the server resolved, which is not empty. -/
theorem personal_isolation (rt : IngestRuntime) (policy : Option PolicyStore) (audit : Option AuditLog)
    (calls : List IngestCall) :
    (∀ q text limit, ∀ e ∈ (ingestAll rt calls ⟨.empty policy, audit⟩).graph.query
        rt.toTextRuntime q text limit,
      (∃ c ∈ calls, e ∈ c.writtenEntities rt) ∧
      ∀ c ∈ calls, c.document.scope = .personal → e ∈ c.writtenEntities rt →
        ∃ who reader, c.principal = some who ∧ q = some reader ∧ reader.userId = who.userId) ∧
    ∀ c ∈ calls, ∀ e ∈ c.writtenEntities rt, e.acl ≠ [] ∧
      ∃ who owner, c.principal = some who ∧
        resolveScopeAcl c.service.policy who c.document = .ok (e.scope, e.acl, owner) := by
  refine ⟨fun q text limit e he => ?_, fun c _ e he => ?_⟩
  · obtain ⟨hstored, hread⟩ := readable_of_mem_query he
    refine ⟨?_, fun c _ hscope hmem => reader_of_personal hscope hmem hread⟩
    rcases written_of_stored hstored with h | h
    · exact absurd h (by simp [InMemoryKnowledgeGraph.empty])
    · exact h
  · obtain ⟨who, owner, hwho, hres⟩ := IngestCall.acl_of_mem_writtenEntities he
    exact ⟨acl_ne_nil_of_resolveScopeAcl hres, who, owner, hwho, hres⟩

end Atlas
