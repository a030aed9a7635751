import Atlas.Persistence.KnowledgeStore

/-! The access rule in SQL against the access rule in code. The predicate is characterised entry by entry
    (`rbacPredicate_iff`); each entry that admits the principal satisfies a clause, so no readable row is
    filtered out, and if no role permission is an identity string, the clauses admit nothing else. -/

namespace Atlas

open Text Like

section predicate
variable {policy : PolicyStore} {principal : Option Principal}

/-- No role permission of the principal has the form of an identity entry. -/
def NoIdentityGrant (policy : PolicyStore) (principal : Option Principal) : Prop :=
  ∀ p ∈ policy.effectivePermissions principal, hasPrefix IDENTITY_ACL_PREFIX p = false

/-- The identity pattern recognises identity entries: its prefix has no metacharacter. -/
theorem like_identityPrefix (a : String) :
    like (rbacParams policy principal).identityPrefix a = hasPrefix IDENTITY_ACL_PREFIX a := by
  have hescape : likeEscape IDENTITY_ACL_PREFIX = IDENTITY_ACL_PREFIX := by decide
  have h := like_escape_percent IDENTITY_ACL_PREFIX a
  rwa [hescape] at h

/-- The exact grants: plain role permissions, and the principal's own identity entry. -/
theorem mem_exact {a : String} : a ∈ (rbacParams policy principal).exact ↔
    (a ∈ policy.effectivePermissions principal ∧ a ≠ WILDCARD ∧ hasSuffix ":*" a = false) ∨
      ∃ p, principal = some p ∧ a = identityAcl p.userId := by
  simp only [rbacParams, List.mem_append, List.mem_filter, Bool.and_eq_true, bne_iff_ne,
    Bool.not_eq_true', Option.mem_toList, Option.map_eq_some_iff]
  exact or_congr Iff.rfl (exists_congr fun p => and_congr Iff.rfl eq_comm)

/-- Some wildcard pattern matches an entry exactly when a hierarchical grant covers it. -/
theorem any_wildcardLike {a : String} :
    (rbacParams policy principal).wildcardLike.any (like · a) = true ↔
      ∃ g ∈ policy.effectivePermissions principal, hasSuffix ":*" g = true ∧
        hasPrefix (dropLast g) a = true := by
  simp only [rbacParams, List.any_map, List.any_eq_true, List.mem_filter, Function.comp_apply,
    like_escape_percent, and_assoc]

/-- A hierarchical grant whose stem the entry starts with covers the entry. -/
theorem mem_coverage_of_hasPrefix {g a : String} (hg : hasSuffix ":*" g = true)
    (ha : hasPrefix (dropLast g) a = true) : a ∈ coverage g :=
  Or.inr (Or.inr (hierarchical_iff.mp (by rw [hg, ha]; rfl)))

/-- What one entry of an acl contributes to the predicate. -/
def Clause (policy : PolicyStore) (principal : Option Principal) (a : String) : Prop :=
  a ∈ (rbacParams policy principal).exact ∨
    hasPrefix IDENTITY_ACL_PREFIX a = false ∧
      (WILDCARD ∈ policy.effectivePermissions principal ∨
        ∃ g ∈ policy.effectivePermissions principal, hasSuffix ":*" g = true ∧
          hasPrefix (dropLast g) a = true)

theorem anyRoleEntry_iff {test : String → Bool} {acl : List String} :
    anyRoleEntry (rbacParams policy principal) test acl = true ↔
      ∃ a ∈ acl, hasPrefix IDENTITY_ACL_PREFIX a = false ∧ test a = true := by
  simp only [anyRoleEntry, List.any_eq_true, Bool.and_eq_true, Bool.not_eq_true', like_identityPrefix]

theorem overlaps_iff {acl exact : List String} :
    overlaps acl exact = true ↔ ∃ a ∈ acl, a ∈ exact := by
  simp only [overlaps, List.any_eq_true, List.contains_iff_mem]

/-- The predicate, entry by entry. -/
theorem rbacPredicate_iff {acl : Option (List String)} :
    rbacPredicate (rbacParams policy principal) acl = true ↔
      acl.getD [] = [] ∨ ∃ a ∈ acl.getD [], Clause policy principal a := by
  cases acl with
  | none => simp [rbacPredicate]
  | some acl =>
    have hadmin : (rbacParams policy principal).isAdmin = true ↔
        WILDCARD ∈ policy.effectivePermissions principal := List.contains_iff_mem
    simp only [rbacPredicate, Bool.or_eq_true, Bool.and_eq_true, anyRoleEntry_iff, overlaps_iff, hadmin,
      any_wildcardLike, beq_iff_eq, List.length_eq_zero_iff, and_true, Option.getD_some]
    constructor
    · rintro (((hnil | ⟨a, ha, hex⟩) | ⟨a, ha, hid, hwild⟩) | ⟨hw, ⟨a, ha, hid⟩ | ⟨a, ha, hex⟩⟩)
      · exact Or.inl hnil
      · exact Or.inr ⟨a, ha, Or.inl hex⟩
      · exact Or.inr ⟨a, ha, Or.inr ⟨hid, Or.inr hwild⟩⟩
      · exact Or.inr ⟨a, ha, Or.inr ⟨hid, Or.inl hw⟩⟩
      · exact Or.inr ⟨a, ha, Or.inl hex⟩
    · rintro (hnil | ⟨a, ha, hex | ⟨hid, hw | hwild⟩⟩)
      · exact Or.inl (Or.inl (Or.inl hnil))
      · exact Or.inl (Or.inl (Or.inr ⟨a, ha, hex⟩))
      · exact Or.inr ⟨hw, Or.inl ⟨a, ha, hid⟩⟩
      · exact Or.inl (Or.inr ⟨a, ha, hid, hwild⟩)

/-- An entry that admits the principal contributes to the predicate. -/
theorem clause_of_admits {a : String} (h : Admits principal policy a) : Clause policy principal a := by
  rw [Admits] at h
  split at h
  next hid => exact Or.inl (mem_exact.mpr (Or.inr h))
  next hid =>
    have hid' : hasPrefix IDENTITY_ACL_PREFIX a = false := by simpa using hid
    obtain ⟨g, hg, hcover⟩ := can_iff.mp h
    rcases hcover with rfl | rfl | hwild
    · exact Or.inr ⟨hid', Or.inl hg⟩
    · by_cases hstar : g = WILDCARD
      · exact Or.inr ⟨hid', Or.inl (hstar ▸ hg)⟩
      · cases hsuf : hasSuffix ":*" g with
        | true =>
          -- a hierarchical grant named literally by the entry also matches it as a pattern
          refine Or.inr ⟨hid', Or.inr ⟨g, hg, hsuf, ?_⟩⟩
          obtain ⟨t, rfl⟩ := hasSuffix_iff.mp hsuf
          rw [dropLast_wildcard]
          exact hasPrefix_iff.mpr ⟨"*", by rw [String.append_assoc]; rfl⟩
        | false => exact Or.inl (mem_exact.mpr (Or.inl ⟨hg, hstar, hsuf⟩))
    · have h' := hierarchical_iff.mpr hwild
      rw [Bool.and_eq_true] at h'
      exact Or.inr ⟨hid', Or.inr ⟨g, hg, h'.1, h'.2⟩⟩

/-- Without identity strings among the role permissions, every contributing entry admits. -/
theorem admits_of_clause (hno : NoIdentityGrant policy principal) {a : String}
    (h : Clause policy principal a) : Admits principal policy a := by
  have hrole : ∀ {g}, hasPrefix IDENTITY_ACL_PREFIX a = false →
      g ∈ policy.effectivePermissions principal → a ∈ coverage g → Admits principal policy a := by
    intro g hid hg hcover
    rw [Admits, if_neg (by simp [hid])]
    exact can_iff.mpr ⟨g, hg, hcover⟩
  rcases h with hex | ⟨hid, hw | ⟨g, hg, hsuf, hpre⟩⟩
  · rcases mem_exact.mp hex with ⟨hg, -, -⟩ | ⟨p, hp, rfl⟩
    · exact hrole (hno a hg) hg (Or.inr (Or.inl rfl))
    · exact admits_identityAcl.mpr ⟨p, hp, rfl⟩
  · exact hrole hid hw (Or.inl rfl)
  · exact hrole hid hg (mem_coverage_of_hasPrefix hsuf hpre)

end predicate

section queries
variable {V D : Type}

theorem canRead_row_iff {policy : PolicyStore} {principal : Option Principal} {row : KgRow V} :
    canRead principal (rowToEntity row) (some policy) = true ↔
      row.acl.getD [] = [] ∨ ∃ a ∈ row.acl.getD [], Admits principal policy a := canRead_iff

/-- No readable row is filtered out in SQL. -/
theorem rbacPredicate_of_canRead {policy : PolicyStore} {principal : Option Principal} {row : KgRow V}
    (h : canRead principal (rowToEntity row) (some policy) = true) :
    rbacPredicate (rbacParams policy principal) row.acl = true := by
  rw [rbacPredicate_iff]
  rw [canRead_row_iff] at h
  exact h.imp_right fun ⟨a, ha, hadm⟩ => ⟨a, ha, clause_of_admits hadm⟩

/-- Without identity grants the predicate is `can_read`. -/
theorem rbacPredicate_eq_canRead {policy : PolicyStore} {principal : Option Principal}
    (hno : NoIdentityGrant policy principal) (row : KgRow V) :
    rbacPredicate (rbacParams policy principal) row.acl =
      canRead principal (rowToEntity row) (some policy) := by
  rw [Bool.eq_iff_iff]
  refine ⟨fun h => ?_, rbacPredicate_of_canRead⟩
  rw [canRead_row_iff]
  exact (rbacPredicate_iff.mp h).imp_right fun ⟨a, ha, hc⟩ => ⟨a, ha, admits_of_clause hno hc⟩

/-- Every pattern the predicate is evaluated with is well-formed. -/
theorem compile_patterns (policy : PolicyStore) (principal : Option Principal) :
    ∀ pattern ∈ (rbacParams policy principal).identityPrefix :: (rbacParams policy principal).wildcardLike,
      (compile pattern).isSome = true := by
  intro pattern hp
  rcases List.mem_cons.mp hp with rfl | hp
  · change (compile (IDENTITY_ACL_PREFIX ++ "%")).isSome = true
    decide
  · obtain ⟨g, -, rfl⟩ := List.mem_map.mp hp
    rw [compile_escape_percent]
    rfl

/-- The access predicate of both statements under the parameters `query` builds: it is always well
    defined, admits every row `can_read` admits, and admits no other if no role permission is an identity
    string; so the statements select, of the relevant or embedded rows, the readable ones. -/
theorem rbacPredicate_agrees (rt : TextRuntime) (db : Database V D) (policy : PolicyStore)
    (principal : Option Principal) (text : String) (row : KgRow V) :
    (∀ pattern ∈ (rbacParams policy principal).identityPrefix ::
      (rbacParams policy principal).wildcardLike, (compile pattern).isSome = true) ∧
    (canRead principal (rowToEntity row) (some policy) = true →
      rbacPredicate (rbacParams policy principal) row.acl = true ∧
      ftsSelects db (baseParams rt policy principal text) row =
        relevant db (baseParams rt policy principal text) row ∧
      vectorSelects (baseParams rt policy principal text) row = row.embedding.isSome) ∧
    (NoIdentityGrant policy principal →
      rbacPredicate (rbacParams policy principal) row.acl =
        canRead principal (rowToEntity row) (some policy) ∧
      ftsSelects db (baseParams rt policy principal text) row =
        (canRead principal (rowToEntity row) (some policy) &&
          relevant db (baseParams rt policy principal text) row) ∧
      vectorSelects (baseParams rt policy principal text) row =
        (canRead principal (rowToEntity row) (some policy) && row.embedding.isSome)) := by
  refine ⟨compile_patterns policy principal, fun h => ?_, fun hno => ?_⟩
  · have hpred := rbacPredicate_of_canRead h
    refine ⟨hpred, ?_, ?_⟩
    · rw [ftsSelects, baseParams, hpred, Bool.true_and]
    · rw [vectorSelects, baseParams, hpred, Bool.true_and]
  · have heq := rbacPredicate_eq_canRead hno row
    refine ⟨heq, ?_, ?_⟩
    · rw [ftsSelects, baseParams, heq]
    · rw [vectorSelects, baseParams, heq]

end queries

end Atlas
