import Atlas.Governance.Rbac
import Atlas.Json

/-! The knowledge layer's data and its access rule. An entity is readable when its acl is empty or one
    entry admits the principal: an identity entry admits exactly one user, any other entry is a role
    permission. `Admits` states what an entry means and `canRead_iff` that the code computes it. -/

namespace Atlas

open Text

inductive Scope where | personal | org
  deriving DecidableEq, Repr

def Scope.value : Scope → String
  | personal => "personal"
  | org => "org"

/-- A node in the knowledge graph. -/
structure Entity where
  id : String
  type : String
  name : String
  content : String := ""
  acl : List String := []
  scope : Scope := .org
  deriving DecidableEq, Repr

/-- A directed edge between two entities. -/
structure Relation where
  srcId : String
  dstId : String
  type : String
  deriving DecidableEq, Repr

/-- An acl entry of this form grants read access to exactly one user. -/
def IDENTITY_ACL_PREFIX : String := "kg:read:user:"

def identityAcl (userId : String) : String := IDENTITY_ACL_PREFIX ++ userId

/-- The id prefix of the entities extracted from one source document. -/
def extractionEntityPrefix (ownerSegment sourceId : String) : String :=
  ownerSegment ++ ":" ++ sourceId ++ ":entity:"

/-- The loop of `can_read` over the acl. -/
def canReadAny (principal : Option Principal) (store : PolicyStore) : List String → Bool
  | [] => false
  | permission :: acl =>
    if hasPrefix IDENTITY_ACL_PREFIX permission then
      let owner := dropChars IDENTITY_ACL_PREFIX.length permission
      match principal with
      | some p => if p.userId = owner then true else canReadAny principal store acl
      | none => canReadAny principal store acl
    else if store.can principal (some permission) then true
    else canReadAny principal store acl

/-- True iff the principal may read the entity; without a policy the built-in one applies. -/
def canRead (principal : Option Principal) (entity : Entity) (policy : Option PolicyStore) : Bool :=
  if entity.acl.isEmpty then true
  else canReadAny principal (policy.getD DEFAULT_POLICY) entity.acl

/-! ### What an acl entry means -/

/-- An acl entry admits a principal: by being the user it names, or by a role permission. -/
def Admits (principal : Option Principal) (store : PolicyStore) (entry : String) : Prop :=
  if hasPrefix IDENTITY_ACL_PREFIX entry = true then
    ∃ p, principal = some p ∧ entry = identityAcl p.userId
  else store.can principal (some entry) = true

theorem canReadAny_iff {principal : Option Principal} {store : PolicyStore} {acl : List String} :
    canReadAny principal store acl = true ↔ ∃ entry ∈ acl, Admits principal store entry := by
  induction acl with
  | nil => simp [canReadAny]
  | cons permission acl ih =>
    rw [List.exists_mem_cons_iff, ← ih, canReadAny, Admits]
    split
    next h =>
      cases principal with
      | none => simp
      | some p =>
        have hown := dropChars_eq_iff (t := p.userId) h
        simp only [Option.some.injEq, exists_eq_left', identityAcl, ← hown]
        split
        next he => simp [he]
        next he => exact (or_iff_right fun h => he h.symm).symm
    next h =>
      split
      next hc => simp [hc]
      next hc => simp [hc]

theorem canRead_iff {principal : Option Principal} {entity : Entity} {policy : Option PolicyStore} :
    canRead principal entity policy = true ↔
      entity.acl = [] ∨ ∃ entry ∈ entity.acl, Admits principal (policy.getD DEFAULT_POLICY) entry := by
  rw [canRead]
  split
  next h => simp [List.isEmpty_iff.mp h]
  next h =>
    rw [canReadAny_iff, or_iff_right]
    exact fun h' => h (List.isEmpty_iff.mpr h')

theorem hasPrefix_identityAcl (u : String) : hasPrefix IDENTITY_ACL_PREFIX (identityAcl u) = true :=
  hasPrefix_append _ _

/-- An identity entry admits its own user and nobody else, whatever the policy grants. -/
theorem admits_identityAcl {principal : Option Principal} {store : PolicyStore} {u : String} :
    Admits principal store (identityAcl u) ↔ ∃ p, principal = some p ∧ p.userId = u := by
  rw [Admits, if_pos (hasPrefix_identityAcl u)]
  simp only [identityAcl, String.append_right_inj, eq_comm]

/-- The read interface of a knowledge graph, as the planner uses it; a store behind a database can raise. -/
structure KnowledgeGraph where
  query : Option Principal → String → ℤ → Except PyError (List Entity)

end Atlas
