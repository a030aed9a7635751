import Atlas.Lib.Text
import Atlas.Lib.Dict

/-! Role-based access control. A principal's roles expand to a set of permission strings against a
    role mapping; one rule decides whether a granted set satisfies a required permission. The rule's
    meaning is `coverage`: the set of permissions one grant stands for. `permissionSatisfied_iff` says
    that the code computes exactly membership in the union of the coverages, and `can_iff` carries it
    to a policy store. Default-deny: no principal and no known role means no permission. -/

namespace Atlas

open Text

/-- The admin wildcard. -/
def WILDCARD : String := "*"

/-- The identity a request runs as. -/
structure Principal where
  userId : String
  roles : List String := []
  orgId : Option String := none
  deriving DecidableEq, Repr

/-- The fail-closed default. -/
def Principal.anonymous : Principal := { userId := "anonymous", roles := [], orgId := none }

/-- A role mapping: role name to the set of permissions it grants (only membership matters). -/
abbrev RoleMapping := Dict String (List String)

/-- The built-in role policy. -/
def ROLE_PERMISSIONS : RoleMapping where
  entries := [
    ("admin", ["*"]),
    ("member", ["tool:send:*", "tool:slack:post:*", "tool:gmail:send:*", "tool:calendar:write",
      "tool:slack:post_as_user", "tool:slack:delete_message:*", "kg:read:org", "kg:read:personal"]),
    ("guest", ["kg:read:personal"])]
  nodup := by decide

/-- The loop of `expand_roles`: `acc` is the set collected so far. -/
def expandRolesFrom (mapping : RoleMapping) (acc : List String) : List String → List String
  | [] => acc
  | role :: roles =>
    match mapping.get? role with
    | none => expandRolesFrom mapping acc roles  -- an unknown role grants nothing
    | some granted =>
      if granted.contains WILDCARD then [WILDCARD]
      else expandRolesFrom mapping (acc ++ granted) roles

/-- Expand role names into a concrete permission set. -/
def expandRoles (roles : List String) (mapping : RoleMapping) : List String :=
  expandRolesFrom mapping [] roles

/-- True iff any granted permission satisfies the required one. -/
def permissionSatisfied (granted : List String) (required : String) : Bool :=
  if granted.contains WILDCARD || granted.contains required then true
  else granted.any (fun g => hasSuffix ":*" g && hasPrefix (dropLast g) required)

/-! ### What a grant stands for -/

/-- The permissions a single grant stands for: everything for the admin wildcard, the string itself,
    and for a hierarchical grant `p:*` every permission that starts with `p:`. -/
def coverage (g : String) : Set String :=
  {r | g = WILDCARD ∨ g = r ∨ ∃ p t, g = p ++ ":*" ∧ r = p ++ ":" ++ t}

theorem dropLast_wildcard (p : String) : dropLast (p ++ ":*") = p ++ ":" := by
  have h : (p ++ ":*").toList = (p.toList ++ [':']) ++ ['*'] := by
    rw [String.toList_append, List.append_assoc]; rfl
  rw [dropLast, h, List.dropLast_concat]
  refine String.toList_injective ?_
  rw [String.toList_ofList, String.toList_append]; rfl

theorem hierarchical_iff {g r : String} :
    (hasSuffix ":*" g && hasPrefix (dropLast g) r) = true ↔
      ∃ p t, g = p ++ ":*" ∧ r = p ++ ":" ++ t := by
  rw [Bool.and_eq_true, hasSuffix_iff]
  constructor
  · rintro ⟨⟨p, rfl⟩, h⟩
    rw [dropLast_wildcard, hasPrefix_iff] at h
    obtain ⟨t, rfl⟩ := h
    exact ⟨p, t, rfl, rfl⟩
  · rintro ⟨p, t, rfl, rfl⟩
    exact ⟨⟨p, rfl⟩, by rw [dropLast_wildcard]; exact hasPrefix_append _ _⟩

/-- The matching rule computes membership in the union of the coverages. -/
theorem permissionSatisfied_iff {granted : List String} {r : String} :
    permissionSatisfied granted r = true ↔ ∃ g ∈ granted, r ∈ coverage g := by
  rw [permissionSatisfied, ite_eq_left_iff, Bool.or_eq_true, List.contains_iff_mem,
    List.contains_iff_mem, List.any_eq_true]
  constructor
  · intro h
    by_cases hc : WILDCARD ∈ granted ∨ r ∈ granted
    · rcases hc with hw | hr
      · exact ⟨WILDCARD, hw, Or.inl rfl⟩
      · exact ⟨r, hr, Or.inr (Or.inl rfl)⟩
    · obtain ⟨g, hg, hm⟩ := h hc
      exact ⟨g, hg, Or.inr (Or.inr (hierarchical_iff.mp hm))⟩
  · rintro ⟨g, hg, rfl | rfl | hm⟩ hc
    · exact absurd (Or.inl hg) hc
    · exact absurd (Or.inr hg) hc
    · exact ⟨g, hg, hierarchical_iff.mpr hm⟩

/-! ### Policy stores -/

/-- A role-to-permission policy backend. -/
structure PolicyStore where
  effectivePermissions : Option Principal → List String

/-- Default-deny check shared by every backend; no permission required means allowed. -/
def PolicyStore.can (store : PolicyStore) (principal : Option Principal) :
    Option String → Bool
  | none => true
  | some permission => permissionSatisfied (store.effectivePermissions principal) permission

/-- Policy backed by an in-process mapping. -/
def inMemoryPolicyStore (mapping : RoleMapping) : PolicyStore where
  effectivePermissions
    | none => []
    | some principal => expandRoles principal.roles mapping

/-- The store used when none is injected. -/
def DEFAULT_POLICY : PolicyStore := inMemoryPolicyStore ROLE_PERMISSIONS

theorem can_iff {store : PolicyStore} {principal : Option Principal} {r : String} :
    store.can principal (some r) = true ↔
      ∃ g ∈ store.effectivePermissions principal, r ∈ coverage g :=
  permissionSatisfied_iff

/-- What the role loop collects: a wildcard role swallows the rest, otherwise every known role adds
    its grants to `acc`. -/
theorem mem_expandRolesFrom {mapping : RoleMapping} {g : String} : ∀ {roles acc : List String},
    g ∈ expandRolesFrom mapping acc roles → g ∈ acc ∨
      ∃ role ∈ roles, ∃ granted, mapping.get? role = some granted ∧ g ∈ granted
  | [], _, h => Or.inl h
  | role :: roles, acc, h => by
      rw [expandRolesFrom] at h
      cases hm : mapping.get? role with
      | none =>
        rw [hm] at h
        rcases mem_expandRolesFrom h with h | ⟨r, hr, hg⟩
        · exact Or.inl h
        · exact Or.inr ⟨r, List.mem_cons_of_mem _ hr, hg⟩
      | some granted =>
        simp only [hm] at h
        split at h
        next hw =>
          rw [List.mem_singleton] at h
          rw [List.contains_iff_mem] at hw
          exact Or.inr ⟨role, List.mem_cons_self, granted, hm, h ▸ hw⟩
        next hw =>
          rcases mem_expandRolesFrom h with h | ⟨r, hr, hg⟩
          · rcases List.mem_append.mp h with h | h
            · exact Or.inl h
            · exact Or.inr ⟨role, List.mem_cons_self, granted, hm, h⟩
          · exact Or.inr ⟨r, List.mem_cons_of_mem _ hr, hg⟩

/-- What the expansion stands for: the early return on the wildcard drops grants, but no coverage. -/
theorem covered_expandRolesFrom {mapping : RoleMapping} {r : String} : ∀ {roles acc : List String},
    (∃ g ∈ expandRolesFrom mapping acc roles, r ∈ coverage g) ↔ (∃ g ∈ acc, r ∈ coverage g) ∨
      ∃ role ∈ roles, ∃ granted, mapping.get? role = some granted ∧ ∃ g ∈ granted, r ∈ coverage g
  | [], acc => by simp [expandRolesFrom]
  | role :: roles, acc => by
      rw [expandRolesFrom, List.exists_mem_cons_iff]
      cases hm : mapping.get? role with
      | none => simp [covered_expandRolesFrom]
      | some granted =>
        simp only [Option.some.injEq, exists_eq_left']
        split
        next hw =>
          rw [List.contains_iff_mem] at hw
          exact iff_of_true ⟨WILDCARD, List.mem_singleton.mpr rfl, Or.inl rfl⟩
            (Or.inr (Or.inl ⟨WILDCARD, hw, Or.inl rfl⟩))
        next =>
          rw [covered_expandRolesFrom, ← or_assoc]
          simp only [List.mem_append, or_and_right, exists_or]

/-- The in-memory store authorises exactly what some grant of some role of the principal stands for. -/
theorem can_inMemory_iff {mapping : RoleMapping} {principal : Option Principal} {r : String} :
    (inMemoryPolicyStore mapping).can principal (some r) = true ↔
      ∃ p, principal = some p ∧ ∃ role ∈ p.roles, ∃ granted, mapping.get? role = some granted ∧
        ∃ g ∈ granted, r ∈ coverage g := by
  rw [can_iff]
  cases principal with
  | none => simp [inMemoryPolicyStore]
  | some p =>
    simp only [inMemoryPolicyStore, expandRoles, covered_expandRolesFrom, List.not_mem_nil, false_and,
      exists_false, false_or, Option.some.injEq, exists_eq_left']

end Atlas
