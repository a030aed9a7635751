import Atlas.Lib.Base64
import Atlas.Governance.Rbac
import Atlas.Governance.Audit

/-! OAuth credentials, kept per principal. A credential belongs to an organisation and a user, so a
    principal without an organisation, or without an identity, has none. The in-memory vault keys on
    their texts as they are, a path of the durable one on their stripped base64. -/

namespace Atlas

open Text

/-- Supported outbound OAuth integrations. -/
inductive OAuthProvider where | google | slack
  deriving DecidableEq, Repr

namespace OAuthProvider

def value : OAuthProvider → String
  | google => "google"
  | slack => "slack"

theorem value_injective {p q : OAuthProvider} (h : p.value = q.value) : p = q := by
  cases p <;> cases q <;> first | rfl | exact absurd h (by decide)

def all : List OAuthProvider := [google, slack]

/-- `OAuthProvider(s)`: the member with that value, if any. -/
def ofValue? (s : String) : Option OAuthProvider := all.find? (·.value == s)

@[simp] theorem ofValue?_value (p : OAuthProvider) : ofValue? p.value = some p := by
  cases p <;> rfl

end OAuthProvider

/-- A `datetime`: wall clock, and the offset from UTC in seconds unless it is naive. -/
structure ExpiresAt where
  wall : DateTime
  offset : Option ℤ
  deriving DecidableEq, Repr

/-- A stored OAuth token set. -/
structure StoredCredential where
  provider : OAuthProvider
  scopes : List String := []
  accessToken : String
  refreshToken : Option String := none
  expiresAt : Option ExpiresAt := none
  tokenType : String := "Bearer"
  metadata : Dict String String := Dict.empty

/-- A vault over a store of type `V`: each operation answers, or raises, and leaves a store. -/
structure CredentialVault (V : Type) where
  put : Principal → OAuthProvider → StoredCredential → V → Except PyError Unit × V
  get : Principal → OAuthProvider → V → Except PyError (Option StoredCredential) × V
  delete : Principal → OAuthProvider → V → Except PyError Unit × V
  listConnected : Principal → V → Except PyError (List OAuthProvider) × V

/-- `CredentialAccessError`. -/
def credentialAccessError (message : String) : PyError := ⟨"CredentialAccessError", message⟩

/-- Credentials are scoped to an organisation and a user. -/
def requireOrgId (principal : Principal) : Except PyError String :=
  match principal.orgId with
  | none => .error (credentialAccessError "org_id is required for credential storage")
  | some org =>
    if org = "" ∨ strip org = "" then
      .error (credentialAccessError "org_id is required for credential storage")
    else if principal = Principal.anonymous then
      .error (credentialAccessError "anonymous principal cannot access credentials")
    else .ok org

/-- The base64 segment of an identity, of which white space at the ends is dropped. -/
def vaultPathSegment (value : String) : Except PyError String :=
  if strip value = "" then .error (credentialAccessError "empty path segment")
  else .ok (String.ofList (Base64.unpadded (strip value).toUTF8.data.toList))

/-- The logical path of a credential. -/
def credentialSecretPath (mount orgId userId : String) (provider : OAuthProvider) :
    Except PyError String := do
  let org ← vaultPathSegment orgId
  let user ← vaultPathSegment userId
  return stripBy (· == '/') mount ++ "/" ++
    ("atlas/credentials/" ++ org ++ "/" ++ user ++ "/" ++ provider.value)

/-- The principal must be the one of the storage key. -/
def assertPrincipalScope (principal : Principal) (orgId userId : String) : Except PyError Unit := do
  let _ ← requireOrgId principal
  if principal.userId ≠ userId then .error (credentialAccessError "credential access denied for user_id")
  else if principal.orgId ≠ some orgId then
    .error (credentialAccessError "credential access denied for org_id")
  else .ok ()

/-- `sorted(providers, key=lambda p: p.value)`. -/
def sortProviders (providers : List OAuthProvider) : List OAuthProvider :=
  providers.insertionSort fun p q => p.value ≤ q.value

/-! ### The in-memory vault -/

/-- The store: a credential for each organisation, user and provider. -/
abbrev MemoryStore := Dict (String × String × OAuthProvider) StoredCredential

/-- `InMemoryCredentialVault`. -/
def inMemoryCredentialVault : CredentialVault MemoryStore where
  put principal provider credential store :=
    match requireOrgId principal with
    | .error e => (.error e, store)
    | .ok org => (.ok (), store.set (org, principal.userId, provider) credential)
  get principal provider store :=
    match requireOrgId principal with
    | .error e => (.error e, store)
    | .ok org => (.ok (store.get? (org, principal.userId, provider)), store)
  delete principal provider store :=
    match requireOrgId principal with
    | .error e => (.error e, store)
    | .ok org => (.ok (), store.filterKeys (· != (org, principal.userId, provider)))
  listConnected principal store :=
    match requireOrgId principal with
    | .error e => (.error e, store)
    | .ok org =>
      (.ok (sortProviders ((store.keys.filter fun k => k.1 == org && k.2.1 == principal.userId).map
        (·.2.2)).dedup), store)

/-- The principals that have credentials: those with an organisation. -/
theorem requireOrgId_eq_ok {principal : Principal} {org : String} :
    requireOrgId principal = .ok org ↔ principal.orgId = some org ∧ strip org ≠ "" := by
  unfold requireOrgId
  cases horg : principal.orgId with
  | none => simp
  | some o =>
    simp only [Fallible.ite_error_eq_ok, Except.ok.injEq, Option.some.injEq, not_or]
    constructor
    · rintro ⟨⟨-, hne⟩, -, rfl⟩
      exact ⟨rfl, hne⟩
    · rintro ⟨rfl, hne⟩
      refine ⟨⟨?_, hne⟩, ?_, rfl⟩
      · rintro rfl
        exact hne rfl
      · rintro rfl
        cases horg

/-- A principal with an organisation is in its own scope. -/
theorem assertPrincipalScope_self {principal : Principal} {org : String}
    (h : requireOrgId principal = .ok org) : assertPrincipalScope principal org principal.userId = .ok () := by
  rw [assertPrincipalScope, h, Fallible.ok_bind, if_neg (not_not.mpr rfl),
    if_neg (not_not.mpr (requireOrgId_eq_ok.mp h).1)]

theorem vaultPathSegment_eq_ok {s a : String} : vaultPathSegment s = .ok a ↔
    strip s ≠ "" ∧ String.ofList (Base64.unpadded (strip s).toUTF8.data.toList) = a := by
  rw [vaultPathSegment, Fallible.ite_error_eq_ok, Except.ok.injEq]

/-- Segments are equal exactly when the stripped texts are. -/
theorem strip_eq_of_segment {s t a : String} (hs : vaultPathSegment s = .ok a)
    (ht : vaultPathSegment t = .ok a) : strip s = strip t := by
  obtain ⟨-, hs⟩ := vaultPathSegment_eq_ok.mp hs
  obtain ⟨-, ht⟩ := vaultPathSegment_eq_ok.mp ht
  have hbytes := Base64.unpadded_injective (String.ofList_injective (hs.trans ht.symm))
  rw [String.toUTF8_eq_toByteArray, String.toUTF8_eq_toByteArray, Array.toList_inj] at hbytes
  exact String.toByteArray_inj.mp (ByteArray.ext hbytes)

theorem slash_not_mem_segment {s a : String} (h : vaultPathSegment s = .ok a) : '/' ∉ a.toList := by
  obtain ⟨-, h⟩ := vaultPathSegment_eq_ok.mp h
  rw [← h, String.toList_ofList]
  exact Base64.slash_not_mem_unpadded _

/-- Two lists of providers without repeats sort to the same list if they have the same members. -/
theorem sortProviders_congr {l l' : List OAuthProvider} (h : l.Nodup) (h' : l'.Nodup)
    (hmem : ∀ p, p ∈ l ↔ p ∈ l') : sortProviders l = sortProviders l' := by
  have htotal : Std.Total fun p q : OAuthProvider => p.value ≤ q.value := ⟨fun p q => le_total p.value q.value⟩
  have htrans : IsTrans OAuthProvider fun p q => p.value ≤ q.value := ⟨fun _ _ _ => le_trans⟩
  have hperm := (List.perm_ext_iff_of_nodup h h').mpr hmem
  refine List.Perm.eq_of_pairwise (fun p q _ _ hpq hqp => ?_) (List.pairwise_insertionSort _ l)
    (List.pairwise_insertionSort _ l')
    ((List.perm_insertionSort _ l).trans (hperm.trans (List.perm_insertionSort _ l').symm))
  exact OAuthProvider.value_injective (le_antisymm hpq hqp)

end Atlas
