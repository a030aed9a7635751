import Atlas.Lib.Table
import Atlas.Governance.Rbac
import Atlas.Persistence.Jsonb

/-! The durable policy: a table of role and permission, edited by grants and revocations. A check selects
    the permissions of the principal's roles by one query; `list_policies` groups the table into the
    mapping an in-memory store takes. `Holds` says what a history of edits has left a role with, and all
    three readings of the policy answer by it. The database refuses texts with a NUL, so a check on
    such a role name raises instead of answering. -/

namespace Atlas

open Text

/-- One row of `atlas_role_permissions`, which is its own primary key. -/
structure RoleGrant where
  role : String
  permission : String
  deriving DecidableEq, Repr

abbrev PolicyTable : Type := Table (fun row : RoleGrant => row)

/-- An edit of the policy. -/
inductive PolicyEdit where
  | grant (role permission : String)
  | revoke (role permission : String)
  deriving DecidableEq, Repr

section edits
variable (keyFits : RoleGrant → Bool)

/-- The database takes the row: no NUL, and the index entry fits a page. -/
def acceptsGrant (row : RoleGrant) : Bool := bindable [row.role, row.permission] && keyFits row

/-- `PostgresPolicyStore.grant` and `revoke`. An edit that raises leaves the table; without the row, a
    revocation deletes nothing. -/
def PolicyEdit.apply (table : PolicyTable) : PolicyEdit → PolicyTable
  | .grant role permission =>
    if acceptsGrant keyFits ⟨role, permission⟩ then table.insertNew ⟨role, permission⟩ else table
  | .revoke role permission =>
    if bindable [role, permission] then table.delete (fun row => row ≠ ⟨role, permission⟩) else table

/-- The table after a history of edits. -/
def policyAfter (edits : List PolicyEdit) : PolicyTable :=
  edits.foldl (PolicyEdit.apply keyFits) Table.empty

end edits

namespace PolicyTable

/-- `PostgresPolicyStore.effective_permissions`. -/
def effectivePermissions (table : PolicyTable) : Option Principal → Except PyError (List String)
  | none => .ok []
  | some principal =>
    if principal.roles.isEmpty then .ok []
    else if !bindable principal.roles then .error dataError
    else
      let perms := (table.rows.filter (fun row => principal.roles.contains row.role)).map (·.permission)
      if perms.contains WILDCARD then .ok [WILDCARD] else .ok perms

/-- `PolicyStore.can` on the durable store. -/
def can (table : PolicyTable) (principal : Option Principal) :
    Option String → Except PyError Bool
  | none => .ok true
  | some permission =>
    (table.effectivePermissions principal).map (fun granted => permissionSatisfied granted permission)

/-- Put a row into the set of its role. -/
def group (grouped : RoleMapping) (row : RoleGrant) : RoleMapping :=
  grouped.set row.role ((grouped.get? row.role).getD [] ++ [row.permission])

/-- `list_policies`: the rows, in the order of the database's collation, grouped by role. -/
def listPolicies (collation : RoleGrant → RoleGrant → Bool) (table : PolicyTable) : RoleMapping :=
  (table.rows.insertionSort (fun a b => collation a b = true)).foldl group Dict.empty

end PolicyTable

/-! ### What a history leaves -/

/-- After the edits the role holds the permission: some grant of it was taken, and no later edit revoked
    it. -/
def Holds (keyFits : RoleGrant → Bool) (edits : List PolicyEdit) (row : RoleGrant) : Prop :=
  acceptsGrant keyFits row = true ∧ ∃ done later, edits = done ++ .grant row.role row.permission :: later ∧
    .revoke row.role row.permission ∉ later

/-- The reference rule: some role of the principal holds a grant that stands for the permission. -/
def Authorized (keyFits : RoleGrant → Bool) (edits : List PolicyEdit) (principal : Option Principal)
    (permission : String) : Prop :=
  ∃ p, principal = some p ∧ ∃ role ∈ p.roles, ∃ g, Holds keyFits edits ⟨role, g⟩ ∧
    (g = WILDCARD ∨ g = permission ∨ hasSuffix ":*" g = true ∧ hasPrefix (dropLast g) permission = true)

section history
variable {keyFits : RoleGrant → Bool} {edits : List PolicyEdit} {row : RoleGrant}

/-- One more edit: it grants the row, or the row is held already and the edit is no revocation of it. -/
theorem holds_concat {e : PolicyEdit} : Holds keyFits (edits ++ [e]) row ↔
    (acceptsGrant keyFits row = true ∧ e = .grant row.role row.permission) ∨
      (Holds keyFits edits row ∧ e ≠ .revoke row.role row.permission) := by
  constructor
  · rintro ⟨hacc, done, later, heq, hno⟩
    rcases List.eq_nil_or_concat later with rfl | ⟨later, x, rfl⟩
    · exact Or.inl ⟨hacc, (List.concat_inj.mp (by simpa using heq)).2⟩
    · rw [List.concat_eq_append, ← List.cons_append, ← List.append_assoc] at heq
      obtain ⟨rfl, rfl⟩ : edits = done ++ .grant row.role row.permission :: later ∧ e = x := by
        simpa using List.concat_inj.mp (by simpa using heq)
      rw [List.concat_eq_append, List.mem_append, not_or, List.mem_singleton] at hno
      exact Or.inr ⟨⟨hacc, done, later, rfl, hno.1⟩, fun h => hno.2 h.symm⟩
  · rintro (⟨hacc, rfl⟩ | ⟨⟨hacc, done, later, rfl, hno⟩, hne⟩)
    · exact ⟨hacc, edits, [], rfl, List.not_mem_nil⟩
    · refine ⟨hacc, done, later ++ [e], by simp, ?_⟩
      rw [List.mem_append, not_or, List.mem_singleton]
      exact ⟨hno, fun h => hne h.symm⟩

/-- One edit of the table. -/
theorem mem_apply {table : PolicyTable} {e : PolicyEdit} : row ∈ (e.apply keyFits table).rows ↔
    (acceptsGrant keyFits row = true ∧ e = .grant row.role row.permission) ∨
      (row ∈ table.rows ∧
        (e = .revoke row.role row.permission → bindable [row.role, row.permission] = false)) := by
  cases e with
  | grant role permission =>
    have hrow : PolicyEdit.grant role permission = .grant row.role row.permission ↔
        row = ⟨role, permission⟩ := by
      constructor
      · intro h
        cases row
        cases h
        rfl
      · rintro rfl
        rfl
    simp only [reduceCtorEq, false_implies, and_true]
    rw [PolicyEdit.apply, hrow]
    split
    next h =>
      rw [Table.mem_insertNew, or_comm]
      exact or_congr_left ⟨fun he => ⟨he ▸ h, he⟩, And.right⟩
    next h =>
      refine (or_iff_right ?_).symm
      rintro ⟨hacc, rfl⟩
      exact h hacc
  | revoke role permission =>
    simp only [reduceCtorEq, and_false, false_or, PolicyEdit.revoke.injEq]
    rw [PolicyEdit.apply]
    split
    next h =>
      rw [Table.mem_delete, decide_eq_true_iff]
      refine and_congr_right fun _ => ⟨fun hne heq => ?_, fun himp heq => ?_⟩
      · exact absurd (by rw [heq.1, heq.2]) hne
      · subst heq
        exact absurd (himp ⟨rfl, rfl⟩) (by simp [h])
    next h =>
      refine (and_iff_left ?_).symm
      rintro ⟨rfl, rfl⟩
      simpa using h

/-- The table after a history holds exactly the rows that the history leaves held. -/
theorem mem_policyAfter : row ∈ (policyAfter keyFits edits).rows ↔ Holds keyFits edits row := by
  induction edits using List.reverseRecOn generalizing row with
  | nil =>
    refine iff_of_false List.not_mem_nil ?_
    rintro ⟨-, done, later, heq, -⟩
    simp at heq
  | append_singleton edits e ih =>
    rw [policyAfter, List.foldl_append, List.foldl_cons, List.foldl_nil, ← policyAfter, mem_apply, ih,
      holds_concat]
    refine or_congr Iff.rfl (and_congr_right fun hheld => imp_congr_right fun _ => ?_)
    have hbind : bindable [row.role, row.permission] = true := (Bool.and_eq_true_iff.mp hheld.1).1
    simp [hbind]

end history

/-! ### The three readings -/

/-- What grouping a list of rows finds under a role. -/
theorem get?_foldl_group {rows : List RoleGrant} {grouped : RoleMapping} {role g : String} :
    (∃ granted, (rows.foldl PolicyTable.group grouped).get? role = some granted ∧ g ∈ granted) ↔
      (∃ granted, grouped.get? role = some granted ∧ g ∈ granted) ∨ ⟨role, g⟩ ∈ rows := by
  induction rows generalizing grouped with
  | nil => simp
  | cons row rows ih =>
    rw [List.foldl_cons, ih, PolicyTable.group, Dict.get?_set, List.mem_cons]
    by_cases hrole : role = row.role
    · subst hrole
      cases row with
      | mk r p => 
        cases hget : grouped.get? r <;> simp [or_assoc]
    · have hne : (⟨role, g⟩ : RoleGrant) ≠ row := fun h => hrole (congrArg RoleGrant.role h)
      rw [if_neg hrole, or_iff_right hne]

theorem mem_listPolicies (collation : RoleGrant → RoleGrant → Bool) (table : PolicyTable)
    {role g : String} :
    (∃ granted, (table.listPolicies collation).get? role = some granted ∧ g ∈ granted) ↔
      ⟨role, g⟩ ∈ table.rows := by
  rw [PolicyTable.listPolicies, get?_foldl_group, List.mem_insertionSort]
  simp

/-- The role names a check binds have no NUL. -/
def bindableRoles (principal : Option Principal) : Bool := bindable (principal.elim [] (·.roles))

section readings
variable {keyFits : RoleGrant → Bool} {edits : List PolicyEdit} {principal : Option Principal} {r : String}

theorem authorized_iff : Authorized keyFits edits principal r ↔
    ∃ p, principal = some p ∧ ∃ role ∈ p.roles, ∃ g, ⟨role, g⟩ ∈ (policyAfter keyFits edits).rows ∧
      r ∈ coverage g := by
  simp only [Authorized, mem_policyAfter, coverage, Set.mem_ofPred_eq, ← hierarchical_iff,
    Bool.and_eq_true]

/-- An in-memory store over the listed mapping answers by the rows. -/
theorem can_listPolicies_iff (collation : RoleGrant → RoleGrant → Bool) {table : PolicyTable} :
    (inMemoryPolicyStore (table.listPolicies collation)).can principal (some r) = true ↔
      ∃ p, principal = some p ∧ ∃ role ∈ p.roles, ∃ g, ⟨role, g⟩ ∈ table.rows ∧ r ∈ coverage g := by
  simp only [can_inMemory_iff, ← mem_listPolicies collation table]
  refine exists_congr fun p => and_congr_right fun _ => exists_congr fun role =>
    and_congr_right fun _ => ⟨?_, ?_⟩
  · rintro ⟨granted, hget, g, hg, hr⟩
    exact ⟨g, ⟨granted, hget, hg⟩, hr⟩
  · rintro ⟨g, ⟨granted, hget, hg⟩, hr⟩
    exact ⟨granted, hget, g, hg, hr⟩

/-- Collapsing a set with the wildcard to the wildcard changes no answer. -/
theorem permissionSatisfied_collapse (perms : List String) :
    permissionSatisfied (if perms.contains WILDCARD then [WILDCARD] else perms) r =
      permissionSatisfied perms r := by
  split
  next h => simp [permissionSatisfied, List.contains_iff_mem.mp h]
  next => rfl

/-- The permissions one query selects satisfy what the rows of the principal's roles stand for. -/
theorem satisfied_selected_iff {table : PolicyTable} {roles : List String} :
    permissionSatisfied ((table.rows.filter (fun row => roles.contains row.role)).map (·.permission)) r =
      true ↔ ∃ role ∈ roles, ∃ g, ⟨role, g⟩ ∈ table.rows ∧ r ∈ coverage g := by
  rw [permissionSatisfied_iff]
  constructor
  · rintro ⟨g, hg, hr⟩
    obtain ⟨row, hrow, rfl⟩ := List.mem_map.mp hg
    obtain ⟨hrow, hrole⟩ := List.mem_filter.mp hrow
    exact ⟨row.role, List.contains_iff_mem.mp hrole, row.permission, hrow, hr⟩
  · rintro ⟨role, hrole, g, hrow, hr⟩
    refine ⟨g, List.mem_map.mpr ⟨⟨role, g⟩, ?_, rfl⟩, hr⟩
    exact List.mem_filter.mpr ⟨hrow, List.contains_iff_mem.mpr hrole⟩

/-- The durable store answers what an in-memory store over its listed mapping answers, unless a role
    name has a NUL. -/
theorem can_eq_listPolicies (collation : RoleGrant → RoleGrant → Bool) (table : PolicyTable)
    (principal : Option Principal) (r : String) : table.can principal (some r) =
      if bindableRoles principal then
        .ok ((inMemoryPolicyStore (table.listPolicies collation)).can principal (some r))
      else .error dataError := by
  cases principal with
  | none => rfl
  | some p =>
    rw [PolicyTable.can, PolicyTable.effectivePermissions, bindableRoles, Option.elim_some]
    by_cases hnil : p.roles.isEmpty = true
    · have hroles : p.roles = [] := List.isEmpty_iff.mp hnil
      rw [if_pos hnil]
      simp [Except.map, PolicyStore.can, inMemoryPolicyStore, hroles, expandRoles, expandRolesFrom, bindable]
    · rw [if_neg hnil]
      cases hbind : bindable p.roles with
      | false => rfl
      | true =>
        simp only [Bool.not_true, Bool.false_eq_true, if_false, if_true]
        rw [← apply_ite Except.ok, Except.map, permissionSatisfied_collapse]
        refine congrArg Except.ok (Bool.eq_iff_iff.mpr ?_)
        rw [satisfied_selected_iff, can_listPolicies_iff]
        simp only [Option.some.injEq, exists_eq_left']

theorem policyCan_eq_ok_true_iff : (policyAfter keyFits edits).can principal (some r) = .ok true ↔
    bindableRoles principal = true ∧ Authorized keyFits edits principal r := by
  rw [can_eq_listPolicies (fun _ _ => true), authorized_iff,
    ← can_listPolicies_iff (fun _ _ => true)]
  cases bindableRoles principal <;> simp

/-- A further grant takes nothing away. -/
theorem Authorized.grant (h : Authorized keyFits edits principal r) (role permission : String) :
    Authorized keyFits (edits ++ [.grant role permission]) principal r := by
  obtain ⟨p, hp, role', hrole, g, hheld, hcover⟩ := h
  exact ⟨p, hp, role', hrole, g, holds_concat.mpr (Or.inr ⟨hheld, by simp⟩), hcover⟩

/-- Only the set of roles matters, and a larger one takes nothing away. -/
theorem Authorized.mono {p q : Principal} (h : Authorized keyFits edits (some p) r)
    (hsub : p.roles ⊆ q.roles) : Authorized keyFits edits (some q) r := by
  obtain ⟨p', hp, role, hrole, hcover⟩ := h
  cases hp
  exact ⟨q, rfl, role, hsub hrole, hcover⟩

end readings

/-- After any history of edits, the durable store answers by the reference rule for every principal whose
    role names it can bind, and an in-memory store over the listed mapping does for every principal. No
    further role and no further grant removes an authorisation, and order and repetition of the roles do
    not matter. -/
theorem policies_agree (keyFits : RoleGrant → Bool) (collation : RoleGrant → RoleGrant → Bool)
    (edits : List PolicyEdit) :
    (∀ principal r,
      ((inMemoryPolicyStore ((policyAfter keyFits edits).listPolicies collation)).can principal (some r) =
        true ↔ Authorized keyFits edits principal r) ∧
      (policyAfter keyFits edits).can principal (some r) =
        if bindableRoles principal then
          .ok ((inMemoryPolicyStore ((policyAfter keyFits edits).listPolicies collation)).can principal
            (some r))
        else .error dataError) ∧
    (∀ (p q : Principal) r, p.roles ⊆ q.roles → bindableRoles (some q) = true →
      (policyAfter keyFits edits).can (some p) (some r) = .ok true →
      (policyAfter keyFits edits).can (some q) (some r) = .ok true) ∧
    (∀ (p q : Principal) r, (∀ role, role ∈ p.roles ↔ role ∈ q.roles) →
      (policyAfter keyFits edits).can (some p) (some r) =
        (policyAfter keyFits edits).can (some q) (some r)) ∧
    ∀ principal r role permission, (policyAfter keyFits edits).can principal (some r) = .ok true →
      (policyAfter keyFits (edits ++ [.grant role permission])).can principal (some r) = .ok true := by
  have hmemory : ∀ principal r,
      (inMemoryPolicyStore ((policyAfter keyFits edits).listPolicies collation)).can principal (some r) =
        true ↔ Authorized keyFits edits principal r := fun principal r => by
    rw [authorized_iff, can_listPolicies_iff]
  refine ⟨fun principal r => ⟨hmemory principal r, can_eq_listPolicies collation _ principal r⟩,
    fun p q r hsub hbind h => ?_, fun p q r hsame => ?_, fun principal r role permission h => ?_⟩
  · rw [policyCan_eq_ok_true_iff] at h ⊢
    exact ⟨hbind, h.2.mono hsub⟩
  · have hbind : bindableRoles (some p) = bindableRoles (some q) := by
      rw [Bool.eq_iff_iff]
      simp [bindableRoles, bindable, hsame]
    have hcan : (inMemoryPolicyStore ((policyAfter keyFits edits).listPolicies collation)).can (some p)
        (some r) = (inMemoryPolicyStore ((policyAfter keyFits edits).listPolicies collation)).can (some q)
        (some r) := by
      rw [Bool.eq_iff_iff, hmemory, hmemory]
      exact ⟨fun h => h.mono fun _ hr => (hsame _).mp hr, fun h => h.mono fun _ hr => (hsame _).mpr hr⟩
    rw [can_eq_listPolicies collation, can_eq_listPolicies collation, hbind, hcan]
  · rw [policyCan_eq_ok_true_iff] at h ⊢
    exact ⟨h.1, h.2.grant role permission⟩

/-- A role name with a NUL: the in-memory store denies, the durable store raises. -/
theorem policies_differ_nul :
    (policyAfter (fun _ => true) []).can (some { userId := "alice", roles := ["a\x00"] }) (some "kg:read") ≠
      .ok ((inMemoryPolicyStore ((policyAfter (fun _ => true) []).listPolicies (fun _ _ => true))).can
        (some { userId := "alice", roles := ["a\x00"] }) (some "kg:read")) := by
  rw [can_eq_listPolicies (fun _ _ => true)]
  decide

end Atlas
