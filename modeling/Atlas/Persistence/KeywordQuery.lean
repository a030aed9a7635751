import Atlas.Lib.CaseMap
import Atlas.Persistence.FtsQuery

/-! Keyword matches of the two backends. In memory a term is looked for in the lower-cased name and content
    with a line break between them, in SQL in each of the two columns by an escaped pattern. Lower-casing
    works on both sides of the break on its own, and a term has no white space and so does not straddle
    it: what matches in memory matches in SQL, and what is readable passes the access predicate. A NUL in a
    parameter is the one thing the database does not take. -/

namespace Atlas

open Text Like

/-- What `_like_escape` yields is never malformed: with `%` behind it it tests for the text at the start,
    between two `%` for the text anywhere. -/
theorem likeEscape_literal (p s : String) :
    ((compile (likeEscape p ++ "%")).isSome = true ∧
      (like (likeEscape p ++ "%") s = true ↔ ∃ rest, s = p ++ rest)) ∧
    (compile ("%" ++ likeEscape p ++ "%")).isSome = true ∧
      (like ("%" ++ likeEscape p ++ "%") s = true ↔ ∃ before after, s = before ++ p ++ after) := by
  refine ⟨⟨?_, ?_⟩, ?_, ?_⟩
  · rw [compile_escape_percent]; rfl
  · rw [like_escape_percent, hasPrefix_iff]
  · rw [compile_percent_escape_percent]; rfl
  · rw [like_percent_escape_percent, occursIn_iff]

section backends
variable {V D : Type}

/-- Both backends hold the same entities. -/
def SameEntities (g : InMemoryKnowledgeGraph) (table : KgTable V) : Prop :=
  ∀ id, (table.get? id).map rowToEntity = g.entities.get? id

/-- The pattern of a query's term tests for the term in the lower-cased column. -/
def TermsMatch (rt : TextRuntime) (db : Database V D) (text : String) : Prop :=
  ∀ term ∈ queryTerms rt text, ∀ column,
    db.ilike ("%" ++ likeEscape term ++ "%") column = occursIn term (rt.lower column)

variable {g : InMemoryKnowledgeGraph} {table : KgTable V} {policy : PolicyStore}
  {principal : Option Principal}

/-- The entities in memory are those of the rows. -/
theorem mem_values_iff_row (hsame : SameEntities g table) {e : Entity} :
    e ∈ g.entities.values ↔ ∃ row ∈ table.rows, rowToEntity row = e := by
  rw [Dict.mem_values_iff]
  simp only [← hsame _, Option.map_eq_some_iff, Table.get?_eq_some_iff]
  constructor
  · rintro ⟨id, row, ⟨hrow, -⟩, he⟩
    exact ⟨row, hrow, he⟩
  · rintro ⟨row, hrow, he⟩
    exact ⟨row.id, row, ⟨hrow, rfl⟩, he⟩

section terms
variable {m : CaseMap} {casefold : String → String} {text : String}

/-- A term of a query that occurs in an entity's text occurs in its name or in its content. -/
theorem occursIn_haystack {term name content : String}
    (hterm : term ∈ queryTerms ⟨m.lower, casefold⟩ text) :
    occursIn term (m.lower (name ++ "\n" ++ content)) = true ↔
      occursIn term (m.lower name) = true ∨ occursIn term (m.lower content) = true := by
  rw [queryTerms] at hterm
  obtain ⟨hne, hword⟩ := toList_of_mem_split hterm
  have hspace : isSpace '\n' = true := by decide
  have hbreak : '\n' ∉ term.toList := by
    intro hmem
    rw [hword _ hmem] at hspace
    cases hspace
  have hsingleton : "\n" = String.singleton '\n' := by decide
  rw [hsingleton, CaseMap.lower_separator hspace, occursIn_iff_isInfix, occursIn_iff_isInfix,
    occursIn_iff_isInfix, String.toList_append, String.toList_append, String.toList_singleton,
    List.append_assoc, List.singleton_append]
  exact infix_separator_iff hne hbreak

/-- An entity that matches in memory is relevant in SQL. -/
theorem relevant_of_match {db : Database V D} (hilike : TermsMatch ⟨m.lower, casefold⟩ db text)
    {row : KgRow V} (h : ((queryTerms ⟨m.lower, casefold⟩ text).isEmpty ||
      (queryTerms ⟨m.lower, casefold⟩ text).any
        (occursIn · (m.lower (row.name ++ "\n" ++ row.content)))) = true) :
    relevant db (baseParams ⟨m.lower, casefold⟩ policy principal text) row = true := by
  simp only [relevant, baseParams, Bool.or_eq_true, List.any_map, List.any_eq_true,
    Function.comp_apply] at h ⊢
  rcases h with hempty | ⟨term, hterm, hoccurs⟩
  · exact Or.inl (Or.inl (Or.inl hempty))
  · rcases (occursIn_haystack hterm).mp hoccurs with hname | hcontent
    · exact Or.inl (Or.inr ⟨term, hterm, (hilike term hterm row.name).trans hname⟩)
    · exact Or.inr ⟨term, hterm, (hilike term hterm row.content).trans hcontent⟩

end terms

/-- Both backends go by the same policy. -/
def SamePolicy (g : InMemoryKnowledgeGraph) (policy : PolicyStore) : Prop :=
  g.policy.getD DEFAULT_POLICY = policy

theorem canRead_of_samePolicy (hpolicy : SamePolicy g policy) (e : Entity) :
    canRead principal e g.policy = canRead principal e (some policy) := by
  rw [← hpolicy]
  rfl

/-- Without terms both unlimited queries return what is readable. -/
theorem mem_query_of_no_terms {rt : TextRuntime} {text : String} {limit : ℤ} {e : Entity}
    (hpolicy : SamePolicy g policy) (hterms : queryTerms rt text = [])
    (hlimit : (g.entities.values.length : ℤ) ≤ limit) :
    e ∈ g.query rt principal text limit ↔
      e ∈ g.entities.values ∧ canRead principal e (some policy) = true := by
  have hsplit : split (rt.lower text) = [] := hterms
  rw [InMemoryKnowledgeGraph.query, InMemoryKnowledgeGraph.sliceTo, if_pos (by omega),
    List.take_of_length_le, List.mem_filter, canRead_of_samePolicy hpolicy, hsplit]
  · simp
  · exact (List.length_filter_le _ _).trans (by omega)

/-- An unlimited full-text query returns the readable rows of its branch. -/
theorem ftsQuery_unlimited {db : Database V D} {params : BaseParams} {limit : ℕ}
    (hexec : Executable params.texts limit) (hlimit : 1 ≤ limit) (hrows : table.rows.length ≤ limit) :
    ∃ result, ftsQuery (readableBy policy principal) params.texts (ftsEntities db params table) limit =
        .ok result ∧
      ∀ e, e ∈ result ↔ e ∈ ftsEntities db params table ∧ canRead principal e (some policy) = true := by
  have hlength : (ftsEntities db params table).length ≤ limit := by
    rw [ftsEntities, ftsRows, List.length_map, List.length_insertionSort]
    exact (List.length_filter_le _ _).trans hrows
  refine ⟨_, ftsQuery_eq hexec _ _ hlimit, fun e => ?_⟩
  rw [List.take_of_length_le ((List.length_filter_le _ _).trans hlength), List.mem_filter]
  rfl

theorem postgresQuery_of_no_terms {S : Type} {db : Database V D} {sc : Scores S} {rt : TextRuntime}
    {embedder : Option (String → Except PyError V)} {text : String} {limit : ℕ}
    (hexec : Executable (baseParams rt policy principal text).texts limit)
    (hterms : queryTerms rt text = []) (hlimit : 1 ≤ limit) (hrows : table.rows.length ≤ limit) :
    ∃ result, postgresQuery db sc policy principal rt embedder text limit table = .ok result ∧
      ∀ e, e ∈ result ↔
        (∃ row ∈ table.rows, rowToEntity row = e) ∧ canRead principal e (some policy) = true := by
  have hall : (baseParams rt policy principal text).matchAll = true := by
    rw [baseParams, hterms]; rfl
  have hrelevant : ∀ row, relevant db (baseParams rt policy principal text) row = true := by
    intro row
    rw [relevant, hall]; rfl
  have hfts : postgresQuery db sc policy principal rt embedder text limit table =
      ftsQuery (readableBy policy principal) (baseParams rt policy principal text).texts
        (ftsEntities db (baseParams rt policy principal text) table) limit := by
    unfold postgresQuery
    cases embedder with
    | none => rfl
    | some embedOne => simp only [if_pos hall]
  obtain ⟨result, hresult, hmem⟩ : ∃ result, ftsQuery (readableBy policy principal)
      (baseParams rt policy principal text).texts
      (ftsEntities db (baseParams rt policy principal text) table) limit = .ok result ∧ _ :=
    ftsQuery_unlimited hexec hlimit hrows
  refine ⟨result, hfts.trans hresult, fun e => ?_⟩
  rw [hmem, mem_ftsEntities]
  constructor
  · rintro ⟨⟨row, hrow, -, he⟩, hread⟩
    exact ⟨⟨row, hrow, he⟩, hread⟩
  · rintro ⟨⟨row, hrow, rfl⟩, hread⟩
    refine ⟨⟨row, hrow, ?_, rfl⟩, hread⟩
    rw [ftsSelects, hrelevant, Bool.and_true]
    exact rbacPredicate_of_canRead hread

/-- What the in-memory backend returns is selected and readable in the database. -/
theorem selected_of_mem_query {m : CaseMap} {casefold : String → String} {text : String}
    {db : Database V D} {limit : ℤ} {e : Entity} (hsame : SameEntities g table)
    (hpolicy : SamePolicy g policy) (hilike : TermsMatch ⟨m.lower, casefold⟩ db text)
    (h : e ∈ g.query ⟨m.lower, casefold⟩ principal text limit) :
    ∃ row ∈ table.rows, rowToEntity row = e ∧
      ftsSelects db (baseParams ⟨m.lower, casefold⟩ policy principal text) row = true ∧
      canRead principal e (some policy) = true := by
  obtain ⟨hstored, hmatch⟩ := List.mem_filter.mp (InMemoryKnowledgeGraph.mem_sliceTo h)
  obtain ⟨row, hrow, rfl⟩ := (mem_values_iff_row hsame).mp hstored
  rw [Bool.and_eq_true, canRead_of_samePolicy hpolicy] at hmatch
  obtain ⟨hread, hterms⟩ := hmatch
  refine ⟨row, hrow, rfl, ?_, hread⟩
  rw [ftsSelects, relevant_of_match hilike hterms, Bool.and_true]
  exact rbacPredicate_of_canRead hread

/-- A text of nothing but white space has no terms. -/
theorem queryTerms_of_space {m : CaseMap} {casefold : String → String} {text : String}
    (h : ∀ c ∈ text.toList, isSpace c = true) : queryTerms ⟨m.lower, casefold⟩ text = [] := by
  have hlower : m.lower text = text := CaseMap.lower_of_space h
  simp only [queryTerms, hlower]
  exact split_eq_nil h

/-- Moving to the database loses no readable keyword match: whatever the in-memory backend returns
    satisfies the WHERE clause and is readable there, so the unlimited full-text query returns it; without
    terms the two unlimited queries return the same entities. The database has to take the parameters. -/
theorem memoryQuery_selected (m : CaseMap) (casefold : String → String) (db : Database V D)
    (g : InMemoryKnowledgeGraph) (table : KgTable V) (policy : PolicyStore)
    (principal : Option Principal) (text : String) (hsame : SameEntities g table)
    (hpolicy : SamePolicy g policy) (hilike : TermsMatch ⟨m.lower, casefold⟩ db text)
    (hbind : bindable (baseParams ⟨m.lower, casefold⟩ policy principal text).texts = true) :
    (∀ (limit : ℤ), ∀ e ∈ g.query ⟨m.lower, casefold⟩ principal text limit,
      (∃ row ∈ table.rows, rowToEntity row = e ∧
        ftsSelects db (baseParams ⟨m.lower, casefold⟩ policy principal text) row = true ∧
        canRead principal e (some policy) = true) ∧
      ∀ {S : Type} (sc : Scores S) (n : ℕ), 1 ≤ n → n ≤ BIGINT_MAX → table.rows.length ≤ n →
        ∃ result, postgresQuery db sc policy principal ⟨m.lower, casefold⟩ none text n table = .ok result ∧
          e ∈ result) ∧
    ((∀ c ∈ text.toList, isSpace c = true) → queryTerms ⟨m.lower, casefold⟩ text = []) ∧
    (queryTerms ⟨m.lower, casefold⟩ text = [] →
      ∀ {S : Type} (sc : Scores S) (embedder : Option (String → Except PyError V)) (limit : ℤ) (n : ℕ),
        (g.entities.values.length : ℤ) ≤ limit → 1 ≤ n → n ≤ BIGINT_MAX → table.rows.length ≤ n →
        ∃ result, postgresQuery db sc policy principal ⟨m.lower, casefold⟩ embedder text n table = .ok result ∧
          ∀ e, e ∈ g.query ⟨m.lower, casefold⟩ principal text limit ↔ e ∈ result) := by
  refine ⟨fun limit e he => ?_, queryTerms_of_space,
    fun hterms S sc embedder limit n hlimit hn hmax hrows => ?_⟩
  · have hselected := selected_of_mem_query hsame hpolicy hilike he
    refine ⟨hselected, fun sc n hn hmax hrows => ?_⟩
    obtain ⟨row, hrow, rfl, hsel, hread⟩ := hselected
    obtain ⟨result, hresult, hmem⟩ := ftsQuery_unlimited (V := V) ⟨hbind, hmax⟩ hn hrows
    exact ⟨result, hresult, (hmem _).mpr ⟨mem_ftsEntities.mpr ⟨row, hrow, hsel, rfl⟩, hread⟩⟩
  · obtain ⟨result, hresult, hmem⟩ : ∃ result, postgresQuery db sc policy principal ⟨m.lower, casefold⟩
        embedder text n table = .ok result ∧ _ :=
      postgresQuery_of_no_terms ⟨hbind, hmax⟩ hterms hn hrows
    refine ⟨result, hresult, fun e => ?_⟩
    rw [mem_query_of_no_terms hpolicy hterms hlimit, hmem, mem_values_iff_row hsame]

end backends

/-! ### A memo in both backends -/

/-- A database whose patterns test the lower-cased column. -/
def lowerDatabase : Database ℕ ℕ where
  tsMatch := fun _ _ => false
  ilike := fun pattern column => like pattern (asciiCaseMap.lower column)
  idLe := fun a b => decide (a ≤ b)
  distance := fun x y => (x - y) + (y - x)
  distanceLe := fun x y => decide (x ≤ y)
  fits := fun _ => true
  scan := exactScan wordDatabase.distance wordDatabase.distanceLe
  scan_subperm := exactScan_subperm _ _

theorem termsMatch_lowerDatabase (rt : TextRuntime) (hrt : rt.lower = asciiCaseMap.lower) (text : String) :
    TermsMatch rt lowerDatabase text := by
  intro term _ column
  have hilike : lowerDatabase.ilike = fun pattern column => like pattern (asciiCaseMap.lower column) := rfl
  rw [hilike, hrt]
  exact like_percent_escape_percent term (asciiCaseMap.lower column)

def memo : Entity := { id := "m1", type := "doc", name := "Budget 50%", content := "Spending Plan" }

def memoTable : KgTable ℕ where
  rows := [⟨"m1", "doc", "Budget 50%", "Spending Plan", some [], .org, none⟩]
  nodup := by decide

theorem sameEntities_memo :
    SameEntities ((InMemoryKnowledgeGraph.empty none).upsertEntity memo) memoTable := by
  intro id
  by_cases hid : id = "m1"
  · subst hid
    decide
  · have hmiss : memoTable.get? id = none := by
      rw [Table.get?_eq_none_iff]
      intro row hrow
      rw [List.mem_singleton.mp hrow]
      exact Ne.symm hid
    have hother : ¬id = memo.id := hid
    rw [hmiss, InMemoryKnowledgeGraph.upsertEntity, Dict.get?_set, if_neg hother]
    rfl

/-- The percent sign of a query stands for itself: the memo is found in both backends. -/
theorem memoryQuery_selected_memo : ∃ result,
    postgresQuery lowerDatabase ratScores DEFAULT_POLICY none ⟨asciiCaseMap.lower, id⟩ none "50% PLAN"
      1 memoTable = .ok result ∧ memo ∈ result :=
  ((memoryQuery_selected asciiCaseMap id lowerDatabase _ memoTable DEFAULT_POLICY none "50% PLAN"
    sameEntities_memo rfl (termsMatch_lowerDatabase _ rfl _) (by decide)).1 5 memo (by decide)).2 ratScores 1
    le_rfl (by decide) le_rfl

/-- A NUL in the query text is nothing to the in-memory backend, which finds the memo by the other word; the
    database backend raises. -/
theorem memoryQuery_nul :
    memo ∈ ((InMemoryKnowledgeGraph.empty none).upsertEntity memo).query ⟨asciiCaseMap.lower, id⟩ none
      "plan \x00" 5 ∧
    postgresQuery lowerDatabase ratScores DEFAULT_POLICY none ⟨asciiCaseMap.lower, id⟩ none "plan \x00" 5
      memoTable = .error dataError := by
  decide

end Atlas
