import Atlas.Knowledge.Reingest
import Atlas.Lib.Selection

/-! What `_persist_extraction` makes of an extractor's output. Its three loops keep first occurrences up to
    a cap, so they equal one selection: the first concepts by kind and normalised name, then the edges
    between kept concepts and the mentions of them, without repeats and cut together. The write replaces
    what lay under the document's prefix by exactly this selection (`persistResult_selects`). -/

namespace Atlas

open Text InMemoryKnowledgeGraph Selection

/-! ### The selection -/

/-- What tells two proposals apart. -/
def conceptKey (rt : IngestRuntime) (proposed : ExtractedEntity) : EntityKind × String :=
  (proposed.type, normalizeName rt proposed.name)

/-- The id of the concept with a key. -/
def conceptId (rt : IngestRuntime) (plan : IngestPlan) (key : EntityKind × String) : String :=
  extractedEntityId rt plan.ownerSegment plan.sourceId key.1.value key.2

/-- The first `cap` proposals with distinct keys, in order of first appearance. -/
def keptProposals (rt : IngestRuntime) (cap : ℕ) (proposed : List ExtractedEntity) : List ExtractedEntity :=
  (proposed.eraseDupsBy (fun p q => conceptKey rt p == conceptKey rt q)).take cap

/-- The edge of a proposed relation, if both its endpoints are kept. -/
def edgeBetween (rt : IngestRuntime) (plan : IngestPlan) (keys : List (EntityKind × String))
    (relation : ExtractedRelation) : Option Relation :=
  let src := (relation.srcType, normalizeName rt relation.srcName)
  let dst := (relation.dstType, normalizeName rt relation.dstName)
  if src ∈ keys ∧ dst ∈ keys then some ⟨conceptId rt plan src, conceptId rt plan dst, relation.type⟩
  else none

/-- The edge from the document's first window to a kept concept. -/
def mentionOf (rt : IngestRuntime) (plan : IngestPlan) (anchor : String) (kept : ExtractedEntity) :
    Relation :=
  ⟨anchor, conceptId rt plan (conceptKey rt kept), MENTIONS_RELATION⟩

/-- The edges kept: those between kept concepts, then one mention of each, no triple twice, `cap` in all. -/
def selectedRelations (rt : IngestRuntime) (plan : IngestPlan) (cap : ℕ) (anchor : String)
    (kept : List ExtractedEntity) (relations : List ExtractedRelation) : List Relation :=
  ((relations.filterMap (edgeBetween rt plan (kept.map (conceptKey rt))) ++
    kept.map (mentionOf rt plan anchor)).eraseDups).take cap

/-! ### The loops compute it -/

section loops
variable {rt : IngestRuntime} {plan : IngestPlan} {cap : ℕ}

theorem collectEntities_eq_collect (proposed : List ExtractedEntity)
    (acc : List ((EntityKind × String) × Entity)) :
    collectEntities rt plan cap proposed acc = collect (fun x y => x.1 == y.1) cap
      (proposed.map (fun p => (conceptKey rt p, conceptEntity rt plan p))) acc := by
  induction proposed generalizing acc with
  | nil => rfl
  | cons p rest ih =>
    have hany : acc.any (·.1 == (p.type, normalizeName rt p.name)) =
        acc.any (fun y => conceptKey rt p == y.1) := by
      congr 1
      funext y
      exact BEq.comm
    rw [List.map_cons, collect, collectEntities]
    simp only [hany, ih]
    rfl

/-- The entities kept, each under its key. -/
theorem collectEntities_nil (proposed : List ExtractedEntity) :
    collectEntities rt plan cap proposed [] =
      (keptProposals rt cap proposed).map (fun p => (conceptKey rt p, conceptEntity rt plan p)) := by
  rw [collectEntities_eq_collect, collect_nil, eraseDupsBy_map, ← List.map_take]
  rfl

theorem collect_edge (edge : Relation) (edges acc : List Relation) (h : ¬cap ≤ acc.length) :
    collect (· == ·) cap (edge :: edges) acc = collect (· == ·) cap edges (collectEdge acc edge) := by
  have hany : acc.any (edge == ·) = true ↔ edge ∈ acc := by
    rw [List.any_beq, List.contains_iff_mem]
  rw [collect, if_neg h, collectEdge]
  simp only [hany]
  split <;> rfl

theorem collectProposed_eq_collect {idByKey : (EntityKind × String) → Option String}
    {edgeOf : ExtractedRelation → Option Relation}
    (hedge : ∀ r, edgeOf r = (idByKey (r.srcType, normalizeName rt r.srcName)).bind (fun srcId =>
      (idByKey (r.dstType, normalizeName rt r.dstName)).map (fun dstId => ⟨srcId, dstId, r.type⟩)))
    (relations : List ExtractedRelation) (acc : List Relation) :
    collectProposed rt idByKey cap relations acc =
      collect (· == ·) cap (relations.filterMap edgeOf) acc := by
  induction relations generalizing acc with
  | nil => rfl
  | cons r rest ih =>
    by_cases hfull : cap ≤ acc.length
    · rw [collect_of_full hfull, collectProposed, if_pos hfull]
    · rw [collectProposed, if_neg hfull, List.filterMap_cons, hedge]
      cases idByKey (r.srcType, normalizeName rt r.srcName) with
      | none => exact ih acc
      | some srcId =>
        cases idByKey (r.dstType, normalizeName rt r.dstName) with
        | none => exact ih acc
        | some dstId =>
          rw [Option.bind_some, Option.map_some]
          simp only [collect_edge _ _ acc hfull, ih]

theorem collectMentions_eq_collect (anchor : String) (ids : List String) (acc : List Relation) :
    collectMentions anchor cap ids acc =
      collect (· == ·) cap (ids.map (fun id => ⟨anchor, id, MENTIONS_RELATION⟩)) acc := by
  induction ids generalizing acc with
  | nil => rfl
  | cons id rest ih =>
    rw [collectMentions, List.map_cons]
    split
    next h => rw [collect_of_full h]
    next h => rw [collect_edge _ _ acc h, ih]

/-- Looking a key up among the kept concepts. -/
theorem lookup_kept (kept : List ExtractedEntity) (key : EntityKind × String) :
    ((kept.map (fun p => (conceptKey rt p, conceptEntity rt plan p))).lookup key).map (·.id) =
      if key ∈ kept.map (conceptKey rt) then some (conceptId rt plan key) else none := by
  induction kept with
  | nil => rfl
  | cons p kept ih =>
    rw [List.map_cons, List.map_cons, List.lookup_cons]
    by_cases hk : key = conceptKey rt p
    · subst hk
      rw [if_pos List.mem_cons_self, beq_self_eq_true]
      rfl
    · rw [beq_eq_false_iff_ne.mpr hk, ih]
      simp only [List.mem_cons, hk, false_or]

/-- The ids kept, by key. -/
def keptId (rt : IngestRuntime) (plan : IngestPlan) (kept : List ExtractedEntity)
    (key : EntityKind × String) : Option String :=
  ((kept.map (fun p => (conceptKey rt p, conceptEntity rt plan p))).lookup key).map (·.id)

theorem edgeBetween_eq_bind (kept : List ExtractedEntity) (r : ExtractedRelation) :
    edgeBetween rt plan (kept.map (conceptKey rt)) r =
      (keptId rt plan kept (r.srcType, normalizeName rt r.srcName)).bind (fun srcId =>
        (keptId rt plan kept (r.dstType, normalizeName rt r.dstName)).map (fun dstId =>
          ⟨srcId, dstId, r.type⟩)) := by
  rw [keptId, keptId, lookup_kept, lookup_kept, edgeBetween]
  by_cases hsrc : (r.srcType, normalizeName rt r.srcName) ∈ kept.map (conceptKey rt)
  · by_cases hdst : (r.dstType, normalizeName rt r.dstName) ∈ kept.map (conceptKey rt)
    · simp only [hsrc, hdst, and_self, if_true, Option.bind_some, Option.map_some]
    · simp only [hsrc, hdst, and_false, if_true, if_false, Option.bind_some, Option.map_none]
  · simp only [hsrc, false_and, if_false, Option.bind_none]

/-- The edges kept. -/
theorem collectRelations_cons (relations : List ExtractedRelation) (kept : List ExtractedEntity)
    (anchor : String) (rest : List String) :
    collectRelations rt cap relations (kept.map (fun p => (conceptKey rt p, conceptEntity rt plan p)))
      (anchor :: rest) = .ok (selectedRelations rt plan cap anchor kept relations) := by
  have hproposed : collectProposed rt (keptId rt plan kept) cap relations [] =
      collect (· == ·) cap (relations.filterMap (edgeBetween rt plan (kept.map (conceptKey rt)))) [] :=
    collectProposed_eq_collect (edgeBetween_eq_bind kept) relations []
  rw [collectRelations]
  simp only [collectMentions_eq_collect, List.map_map]
  calc Except.ok (collect (· == ·) cap (kept.map (mentionOf rt plan anchor))
        (collectProposed rt (keptId rt plan kept) cap relations []))
      = .ok (collect (· == ·) cap (relations.filterMap (edgeBetween rt plan (kept.map (conceptKey rt))) ++
          kept.map (mentionOf rt plan anchor)) []) := by rw [hproposed, collect_append]
    _ = .ok (selectedRelations rt plan cap anchor kept relations) := by rw [collect_nil]; rfl

end loops

/-! ### What the write stores -/

/-- The truncated hashes of proposals with distinct keys differ. -/
def HashesDiffer (rt : IngestRuntime) (proposed : List ExtractedEntity) : Prop :=
  ∀ p ∈ proposed, ∀ q ∈ proposed,
    takeChars 12 (rt.sha256.hexdigest (p.type.value ++ "\x00" ++ normalizeName rt p.name)) =
      takeChars 12 (rt.sha256.hexdigest (q.type.value ++ "\x00" ++ normalizeName rt q.name)) →
    conceptKey rt p = conceptKey rt q

/-- What lay under the prefix is replaced by the selection, in order; the rest is as it was. -/
structure StoresSelection (pre : String) (es : List Entity) (rs : List Relation)
    (g g' : InMemoryKnowledgeGraph) : Prop where
  entities : g'.entities.entries =
    g.entities.entries.filter (fun e => !hasPrefix pre e.1) ++ es.map (fun e => (e.id, e))
  relations : g'.relations = g.relations.filter (fun r => !touches pre r) ++ rs

/-- The id has an entity. -/
def Stored (g : InMemoryKnowledgeGraph) (id : String) : Prop := (g.entities.get? id).isSome = true

/-- Every edge runs between stored entities. -/
def Closed (g : InMemoryKnowledgeGraph) : Prop :=
  ∀ r ∈ g.relations, Stored g r.srcId ∧ Stored g r.dstId

/-- New entities and edges under a prefix replace what lay there. -/
theorem storesSelection_replaceExtraction {g : InMemoryKnowledgeGraph} {pre : String} {es : List Entity}
    {rs : List Relation} (hes : (es.map (·.id)).Nodup) (hpre : ∀ e ∈ es, hasPrefix pre e.id = true)
    (hrs : rs.Nodup) (htouch : ∀ r ∈ rs, touches pre r = true) :
    StoresSelection pre es rs g (g.replaceExtraction pre es rs) where
  entities := by
    rw [replaceExtraction, entities_addAll, entities_upsertAll, Dict.entries_setAll_of_new _ _ _ hes]
    · rfl
    · intro e he hmem
      rw [Dict.mem_keys_iff, get?_dropPrefix, if_pos (hpre e he)] at hmem
      cases hmem
  relations := by
    rw [replaceExtraction, relations_addAll_of_new hrs, relations_upsertAll]
    · rfl
    · intro r hr hmem
      rw [relations_upsertAll, mem_dropPrefix, htouch r hr] at hmem
      cases hmem.2

/-- Afterwards the prefix holds as many entities as were selected, and as many edges touch it. -/
theorem counts_of_storesSelection {g g' : InMemoryKnowledgeGraph} {pre : String} {es : List Entity}
    {rs : List Relation} (h : StoresSelection pre es rs g g')
    (hpre : ∀ e ∈ es, hasPrefix pre e.id = true) (htouch : ∀ r ∈ rs, touches pre r = true) :
    (g'.entities.keys.filter (hasPrefix pre)).length = es.length ∧
      (g'.relations.filter (touches pre)).length = rs.length := by
  have hdrop : ∀ {α : Type} (p : α → Bool) (l : List α), (l.filter (fun x => !p x)).filter p = [] := by
    intro α p l
    rw [List.filter_filter, List.filter_eq_nil_iff]
    intro x _
    cases p x <;> simp
  constructor
  · rw [Dict.keys, List.filter_map, List.length_map, h.entities, List.filter_append]
    have hold : (g.entities.entries.filter (fun e => !hasPrefix pre e.1)).filter
        (hasPrefix pre ∘ (·.1)) = [] := hdrop (fun e : String × Entity => hasPrefix pre e.1) _
    have hnew : (es.map (fun e => (e.id, e))).filter (hasPrefix pre ∘ (·.1)) =
        es.map (fun e => (e.id, e)) := by
      rw [List.filter_eq_self, List.forall_mem_map]
      exact hpre
    rw [hold, hnew, List.nil_append, List.length_map]
  · rw [h.relations, List.filter_append, hdrop, List.filter_eq_self.mpr htouch, List.nil_append]

/-- The upserted ids are stored, and so are those outside the prefix that were. -/
theorem stored_replaceExtraction {g : InMemoryKnowledgeGraph} {pre id : String} {es : List Entity}
    {rs : List Relation} (h : id ∈ es.map (·.id) ∨ hasPrefix pre id = false ∧ Stored g id) :
    Stored (g.replaceExtraction pre es rs) id := by
  rw [Stored, replaceExtraction, entities_addAll]
  by_cases hmem : id ∈ es.map (·.id)
  · obtain ⟨e, -, -, hget⟩ := get?_upsertAll_of_mem (g := g.dropPrefix pre) hmem
    rw [hget, Option.isSome_some]
  · obtain ⟨hpre, hstored⟩ := h.resolve_left hmem
    rw [get?_upsertAll_of_not_mem hmem, get?_dropPrefix, if_neg (by simp [hpre])]
    exact hstored

/-- Replacing an extraction keeps a graph closed when the endpoints of the new edges are stored after it. -/
theorem closed_replaceExtraction {g : InMemoryKnowledgeGraph} {pre : String} {es : List Entity}
    {rs : List Relation} (hg : Closed g)
    (hrs : ∀ r ∈ rs, Stored (g.replaceExtraction pre es rs) r.srcId ∧
      Stored (g.replaceExtraction pre es rs) r.dstId) : Closed (g.replaceExtraction pre es rs) := by
  intro r hr
  rcases mem_replaceExtraction.mp hr with ⟨hold, htouch⟩ | hnew
  · rw [touches, Bool.or_eq_false_iff] at htouch
    obtain ⟨hsrc, hdst⟩ := hg r hold
    exact ⟨stored_replaceExtraction (Or.inr ⟨htouch.1, hsrc⟩),
      stored_replaceExtraction (Or.inr ⟨htouch.2, hdst⟩)⟩
  · exact hrs r hnew

/-! ### What is selected -/

section selection
variable {rt : IngestRuntime} {plan : IngestPlan} {cap : ℕ}

theorem keptProposals_subset {proposed : List ExtractedEntity} {p : ExtractedEntity}
    (h : p ∈ keptProposals rt cap proposed) : p ∈ proposed :=
  (eraseDupsBy_sublist proposed).subset (List.mem_of_mem_take h)

theorem nodup_keptProposals (proposed : List ExtractedEntity) :
    ((keptProposals rt cap proposed).map (conceptKey rt)).Nodup := by
  rw [keptProposals, List.map_take]
  exact (nodup_map_eraseDupsBy (conceptKey rt) proposed).sublist (List.take_sublist _ _)

/-- Ids of proposals whose keys differ are different. -/
theorem conceptKey_of_conceptId {proposed : List ExtractedEntity} (hhash : HashesDiffer rt proposed)
    {p q : ExtractedEntity} (hp : p ∈ proposed) (hq : q ∈ proposed)
    (h : conceptId rt plan (conceptKey rt p) = conceptId rt plan (conceptKey rt q)) :
    conceptKey rt p = conceptKey rt q := by
  simp only [conceptId, extractedEntityId, String.append_assoc, String.append_right_inj] at h
  refine hhash p hp q hq ?_
  rw [String.append_assoc, String.append_assoc]
  exact (append_separator_inj (c := ':') rfl (colon_not_mem_value _) (colon_not_mem_value _) h).2

theorem nodup_ids_keptProposals {proposed : List ExtractedEntity} (hhash : HashesDiffer rt proposed) :
    (((keptProposals rt cap proposed).map (conceptEntity rt plan)).map (·.id)).Nodup := by
  have hids : ((keptProposals rt cap proposed).map (conceptEntity rt plan)).map (·.id) =
      ((keptProposals rt cap proposed).map (conceptKey rt)).map (conceptId rt plan) := by
    rw [List.map_map, List.map_map]; rfl
  rw [hids]
  refine List.Nodup.map_on (fun k hk k' hk' heq => ?_) (nodup_keptProposals proposed)
  obtain ⟨p, hp, rfl⟩ := List.mem_map.mp hk
  obtain ⟨q, hq, rfl⟩ := List.mem_map.mp hk'
  exact conceptKey_of_conceptId hhash (keptProposals_subset hp) (keptProposals_subset hq) heq

theorem nodup_selectedRelations (anchor : String) (kept : List ExtractedEntity)
    (relations : List ExtractedRelation) :
    (selectedRelations rt plan cap anchor kept relations).Nodup :=
  (nodup_eraseDups _).sublist (List.take_sublist _ _)

/-- A selected edge starts at the anchor or a kept concept and ends at a kept concept. -/
theorem endpoints_of_selectedRelations {anchor : String} {kept : List ExtractedEntity}
    {relations : List ExtractedRelation} {r : Relation}
    (h : r ∈ selectedRelations rt plan cap anchor kept relations) :
    (r.srcId = anchor ∨ r.srcId ∈ (kept.map (conceptEntity rt plan)).map (·.id)) ∧
      r.dstId ∈ (kept.map (conceptEntity rt plan)).map (·.id) := by
  have hid : ∀ key ∈ kept.map (conceptKey rt),
      conceptId rt plan key ∈ (kept.map (conceptEntity rt plan)).map (·.id) := by
    intro key hkey
    obtain ⟨p, hp, rfl⟩ := List.mem_map.mp hkey
    exact List.mem_map.mpr ⟨_, List.mem_map_of_mem hp, rfl⟩
  rcases List.mem_append.mp (List.mem_eraseDups.mp (List.mem_of_mem_take h)) with h | h
  · obtain ⟨x, -, hx⟩ := List.mem_filterMap.mp h
    rw [edgeBetween] at hx
    split at hx
    next hkeys =>
      cases hx
      exact ⟨Or.inr (hid _ hkeys.1), hid _ hkeys.2⟩
    next => cases hx
  · obtain ⟨p, hp, rfl⟩ := List.mem_map.mp h
    exact ⟨Or.inl rfl, hid _ (List.mem_map_of_mem hp)⟩

end selection

/-- The loops and the write together: what is selected replaces what lay under the prefix. -/
theorem persistResult_cons (rt : IngestRuntime) (service : IngestionService) (plan : IngestPlan)
    (result : ExtractionResult) (anchor : String) (rest : List String) (g : InMemoryKnowledgeGraph) :
    let kept := keptProposals rt service.maxExtractedEntities result.entities
    let es := kept.map (conceptEntity rt plan)
    let rs := selectedRelations rt plan service.maxExtractedRelations anchor kept result.relations
    persistResult rt service plan (fun _ => none) (anchor :: rest) result g =
      (.ok (es.map (·.id), rs.length),
        g.replaceExtraction (extractionEntityPrefix plan.ownerSegment plan.sourceId) es rs) := by
  intro kept es rs
  have hkept : (kept.map (fun p => (conceptKey rt p, conceptEntity rt plan p))).map (·.2) = es :=
    List.map_map
  have hids : (kept.map (fun p => (conceptKey rt p, conceptEntity rt plan p))).map (·.2.id) =
      es.map (·.id) := by
    rw [List.map_map, List.map_map]; rfl
  have hquiet : quiet (fun _ => none) (es.length + rs.length) = true := quiet_iff.mpr fun _ _ => rfl
  simp only [persistResult, collectEntities_nil, collectRelations_cons]
  rw [hkept, hids, persistExtraction_of_quiet hquiet]

/-! ### Runs of ingests -/

/-- An ingest leaves no edge without its endpoints. -/
theorem closed_apply {rt : IngestRuntime} {c : IngestCall} {st : KnowledgeState} (h : Closed st.graph) :
    Closed (c.apply rt st).graph := by
  cases hplan : planIngest rt c.service c.principal c.document with
  | error e => rw [IngestCall.apply, ingest_of_error st hplan]; exact h
  | ok res =>
    obtain ⟨who, plan⟩ := res
    rw [IngestCall.apply, ingest_graph st hplan]
    have hchunk : ∀ id ∈ (chunkEntities c.document plan).map (·.id),
        Stored (st.graph.upsertAll (chunkEntities c.document plan)) id := by
      intro id hid
      obtain ⟨e, -, -, hget⟩ := get?_upsertAll_of_mem (g := st.graph) hid
      rw [Stored, hget, Option.isSome_some]
    have hchunks : Closed (st.graph.upsertAll (chunkEntities c.document plan)) := by
      have hstored : ∀ id, Stored st.graph id →
          Stored (st.graph.upsertAll (chunkEntities c.document plan)) id := by
        intro id hid
        by_cases hmem : id ∈ (chunkEntities c.document plan).map (·.id)
        · exact hchunk id hmem
        · rw [Stored, get?_upsertAll_of_not_mem hmem]; exact hid
      intro r hr
      rw [relations_upsertAll] at hr
      exact (h r hr).imp (hstored _) (hstored _)
    cases hx : extractionOf rt c.service c.document plan c.fails with
    | none => exact hchunks
    | some x =>
      obtain ⟨es, rs⟩ := x
      refine closed_replaceExtraction hchunks fun r hr => ?_
      obtain ⟨hsrc, hdst⟩ := endpoints_of_extractionOf hx hr
      refine ⟨stored_replaceExtraction ?_, stored_replaceExtraction (Or.inl hdst)⟩
      refine hsrc.symm.imp id fun hmem => ⟨?_, hchunk _ hmem⟩
      obtain ⟨index, -, hid⟩ := (map_id_chunkEntities c.document plan).mp hmem
      rw [← Bool.not_eq_true, hid, hasPrefix_chunkId]
      exact not_nested_self _

/-- Over a whole history of ingests. -/
theorem closed_ingestAll {rt : IngestRuntime} {st : KnowledgeState} (calls : List IngestCall)
    (h : Closed st.graph) : Closed (ingestAll rt calls st).graph := by
  induction calls generalizing st with
  | nil => exact h
  | cons c calls ih => exact ih (closed_apply h)

/-- `_persist_extraction` stores exactly the selection: the first kept concepts with the server's acl and
    scope, then the edges between them and the mentions from the first window. What it returns are their
    ids and number, which is what the document's namespace holds afterwards. The endpoints of the edges it
    stores exist wherever the first window is stored; so in no history of ingests does any edge lack one. -/
theorem persistResult_selects (rt : IngestRuntime) (service : IngestionService) (plan : IngestPlan)
    (result : ExtractionResult) (anchor : String) (rest : List String) (g : InMemoryKnowledgeGraph)
    (hhash : HashesDiffer rt result.entities) :
    let pre := extractionEntityPrefix plan.ownerSegment plan.sourceId
    let kept := keptProposals rt service.maxExtractedEntities result.entities
    let es := kept.map (conceptEntity rt plan)
    let rs := selectedRelations rt plan service.maxExtractedRelations anchor kept result.relations
    (∃ g', persistResult rt service plan (fun _ => none) (anchor :: rest) result g =
        (.ok (es.map (·.id), rs.length), g') ∧
      StoresSelection pre es rs g g' ∧
      (g'.entities.keys.filter (hasPrefix pre)).length = (es.map (·.id)).length ∧
      (g'.relations.filter (touches pre)).length = rs.length ∧
      (hasPrefix pre anchor = false → Stored g anchor →
        (∀ r ∈ rs, Stored g' r.srcId ∧ Stored g' r.dstId) ∧ (Closed g → Closed g'))) ∧
    ∀ calls policy audit, Closed (ingestAll rt calls ⟨.empty policy, audit⟩).graph := by
  intro pre kept es rs
  have hpre : ∀ e ∈ es, hasPrefix pre e.id = true :=
    List.forall_mem_map.mpr fun p _ => hasPrefix_extractedEntityId rt _ _ _ _
  have htouch : ∀ r ∈ rs, touches pre r = true := by
    intro r hr
    obtain ⟨e, he, hid⟩ := List.mem_map.mp (endpoints_of_selectedRelations hr).2
    rw [touches, ← hid, hpre e he, Bool.or_true]
  have hstores : StoresSelection pre es rs g (g.replaceExtraction pre es rs) :=
    storesSelection_replaceExtraction (nodup_ids_keptProposals hhash) hpre
      (nodup_selectedRelations anchor kept result.relations) htouch
  obtain ⟨hentities, hedges⟩ := counts_of_storesSelection hstores hpre htouch
  refine ⟨⟨_, persistResult_cons rt service plan result anchor rest g, hstores, ?_, hedges, ?_⟩, ?_⟩
  · rw [List.length_map]; exact hentities
  · intro hanchor hstored
    have hends : ∀ r ∈ rs, Stored (g.replaceExtraction pre es rs) r.srcId ∧
        Stored (g.replaceExtraction pre es rs) r.dstId := by
      intro r hr
      obtain ⟨hsrc, hdst⟩ := endpoints_of_selectedRelations hr
      refine ⟨stored_replaceExtraction (hsrc.symm.imp id fun heq => ?_),
        stored_replaceExtraction (Or.inl hdst)⟩
      rw [heq]
      exact ⟨hanchor, hstored⟩
    exact ⟨hends, fun hclosed => closed_replaceExtraction hclosed hends⟩
  · exact fun calls policy audit => closed_ingestAll calls fun r hr => absurd hr List.not_mem_nil

/-- Two people, one of them named twice, an edge between them and an edge to somebody unknown. -/
def meeting : ExtractionResult where
  entities := [⟨"ada", .person⟩, ⟨" ada", .person⟩, ⟨"bob", .person⟩]
  relations := [⟨"ada", .person, "eve", .person, "knows"⟩, ⟨"bob ", .person, "ada", .person, "knows"⟩]

/-- Two people and three edges are stored. -/
theorem persistResult_selects_meeting :
    ∃ g', persistResult conceptRuntime (conceptOf "u" "a").service
        ⟨.personal, ["kg:read:user:u"], "personal:u", "a", ["hello"]⟩ (fun _ => none)
        ["personal:u:a:0000"] meeting (afterFirst "a").graph =
      (.ok (["personal:u:a:entity:person:f7b5e9049ca2", "personal:u:a:entity:person:bb13826f4657"], 3), g') ∧
      Closed g' := by
  obtain ⟨⟨g', hrun, -, -, -, hclosed⟩, hall⟩ := persistResult_selects conceptRuntime
    (conceptOf "u" "a").service ⟨.personal, ["kg:read:user:u"], "personal:u", "a", ["hello"]⟩ meeting
    "personal:u:a:0000" [] (afterFirst "a").graph
    (by unfold HashesDiffer; decide +kernel)
  exact ⟨g', hrun, (hclosed (by decide) rfl).2 (hall [noteOf "u" "a"] none none)⟩

end Atlas
