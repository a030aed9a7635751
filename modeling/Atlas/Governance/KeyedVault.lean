import Atlas.Governance.CredentialResolver

/-! Vaults in which every identity has a place of its own. Reading depends on the identity alone, a write
    leaves the places of other identities and providers as they were, and a deletion leaves nothing behind.
    The in-memory vault keeps this for everybody, the durable one for identities whose paths differ. -/

namespace Atlas

variable {V : Type}

/-- A vault that keeps a set of identities apart. -/
structure KeyedVault (ids : Set (Option String × String)) (V : Type) extends LawfulVault V where
  get_congr : ∀ {p q : Principal} (provider v), p.identity = q.identity →
    (get p provider v).1 = (get q provider v).1
  get_put_ne : ∀ {p q : Principal} {provider provider'} (c v), p.identity ∈ ids → q.identity ∈ ids →
    (q.identity, provider') ≠ (p.identity, provider) →
    (get q provider' (put p provider c v).2).1 = (get q provider' v).1
  get_delete : ∀ (p : Principal) (provider v c), (get p provider (delete p provider v).2).1 ≠ .ok (some c)
  get_delete_ne : ∀ {p q : Principal} {provider provider'} (v), p.identity ∈ ids → q.identity ∈ ids →
    (q.identity, provider') ≠ (p.identity, provider) →
    (get q provider' (delete p provider v).2).1 = (get q provider' v).1

/-- The organisation of a principal is one of its identity. -/
theorem requireOrgId_congr {p q : Principal} (h : p.identity = q.identity) :
    requireOrgId p = requireOrgId q := by
  have horg : p.orgId = q.orgId := congrArg Prod.fst h
  have hnamed : ∀ {r : Principal} {org : String}, r.orgId = some org → r ≠ Principal.anonymous := by
    rintro r org hr rfl
    cases hr
  rw [requireOrgId, requireOrgId, ← horg]
  cases hp : p.orgId with
  | none => rfl
  | some org => simp only [if_neg (hnamed hp), if_neg (hnamed (horg.symm.trans hp))]

/-- Identities apart are keys apart, in memory. -/
theorem memoryKey_ne {p q : Principal} {org org' : String} {provider provider' : OAuthProvider}
    (hp : requireOrgId p = .ok org) (hq : requireOrgId q = .ok org')
    (h : (q.identity, provider') ≠ (p.identity, provider)) :
    (org', q.userId, provider') ≠ (org, p.userId, provider) := by
  rintro heq
  simp only [Prod.mk.injEq] at heq
  obtain ⟨rfl, huser, rfl⟩ := heq
  refine h ?_
  rw [Principal.identity, Principal.identity, (requireOrgId_eq_ok.mp hp).1, (requireOrgId_eq_ok.mp hq).1, huser]

def keyedMemoryVault : KeyedVault Set.univ MemoryStore where
  toLawfulVault := lawfulMemoryVault
  get_congr {p q} provider v h := by
    simp only [lawfulMemoryVault, inMemoryCredentialVault, requireOrgId_congr h]
    rw [show p.userId = q.userId from congrArg Prod.snd h]
  get_put_ne {p q provider provider'} c v _ _ h := by
    simp only [lawfulMemoryVault, inMemoryCredentialVault]
    cases hq : requireOrgId q with
    | error e => rfl
    | ok org' =>
      cases hp : requireOrgId p with
      | error e => rfl
      | ok org => simp only [Dict.get?_set_ne _ _ (memoryKey_ne hp hq h)]
  get_delete p provider v c := by
    simp only [lawfulMemoryVault, inMemoryCredentialVault]
    cases requireOrgId p with
    | error e => exact nofun
    | ok org => simp [Dict.get?_filterKeys]
  get_delete_ne {p q provider provider'} v _ _ h := by
    simp only [lawfulMemoryVault, inMemoryCredentialVault]
    cases hq : requireOrgId q with
    | error e => rfl
    | ok org' =>
      cases hp : requireOrgId p with
      | error e => rfl
      | ok org => simp [Dict.get?_filterKeys, memoryKey_ne hp hq h]

/-- A path depends on the identity alone. -/
theorem scopedPath_congr (mount : VaultMount) {p q : Principal} (provider : OAuthProvider)
    (h : p.identity = q.identity) : scopedPath mount p provider = scopedPath mount q provider := by
  rw [scopedPath, scopedPath, requireOrgId_congr h]
  cases hq : requireOrgId q with
  | error e => rfl
  | ok org =>
    rw [Fallible.ok_bind, Fallible.ok_bind, assertPrincipalScope_self hq,
      assertPrincipalScope_self ((requireOrgId_congr h).trans hq),
      show p.userId = q.userId from congrArg Prod.snd h]

theorem path_ne {mount : VaultMount} {principals : Set Principal} (hsep : SegmentsSeparate principals)
    {p q : Principal} (hp : p ∈ principals) (hq : q ∈ principals) {path path' : String}
    {provider provider' : OAuthProvider} (hpath : scopedPath mount p provider = .ok path)
    (hpath' : scopedPath mount q provider' = .ok path')
    (h : (q.identity, provider') ≠ (p.identity, provider)) : path' ≠ path := by
  obtain ⟨org, -, -, horg, -⟩ := scopedPath_eq_ok hpath
  obtain ⟨org', -, -, horg', -⟩ := scopedPath_eq_ok hpath'
  exact fun heq => memoryKey_ne horg horg' h ((path_eq_iff hsep hp hq horg horg' hpath hpath').mp heq)

def keyedHashiCorpVault (mount : VaultMount) (ids : Set (Option String × String))
    (hsep : SegmentsSeparate {p | p.identity ∈ ids}) : KeyedVault ids Kv where
  toLawfulVault := lawfulHashiCorpVault mount
  get_congr {p q} provider v h := by
    simp only [lawfulHashiCorpVault, hashiCorpCredentialVault, scopedPath_congr mount provider h]
  get_put_ne {p q provider provider'} c v hp hq h := by
    simp only [lawfulHashiCorpVault, hashiCorpCredentialVault]
    cases hpath' : scopedPath mount q provider' with
    | error e => rfl
    | ok path' =>
      cases hpath : scopedPath mount p provider with
      | error e => rfl
      | ok path => simp only [Dict.get?_set_ne _ _ (path_ne hsep hp hq hpath hpath' h)]
  get_delete p provider v c := by
    simp only [lawfulHashiCorpVault, hashiCorpCredentialVault]
    cases scopedPath mount p provider with
    | error e => exact nofun
    | ok path => simp [Dict.get?_filterKeys]
  get_delete_ne {p q provider provider'} v hp hq h := by
    simp only [lawfulHashiCorpVault, hashiCorpCredentialVault]
    cases hpath' : scopedPath mount q provider' with
    | error e => rfl
    | ok path' =>
      cases hpath : scopedPath mount p provider with
      | error e => rfl
      | ok path => simp [Dict.get?_filterKeys, path_ne hsep hp hq hpath hpath' h]

/-! ### Reading after a write -/

section reading
variable {ids : Set (Option String × String)} (vault : KeyedVault ids V) {p q : Principal}
  {provider provider' : OAuthProvider} {c stored : StoredCredential} {v : V}

/-- What is read after a write was written, or was there and is another's. -/
theorem held_put (hp : p.identity ∈ ids) (hq : q.identity ∈ ids)
    (h : (vault.get q provider' (vault.put p provider c v).2).1 = .ok (some stored)) :
    (q.identity = p.identity ∧ provider' = provider ∧ GivenBack provider c stored) ∨
      (vault.get q provider' v).1 = .ok (some stored) := by
  by_cases hkey : (q.identity, provider') = (p.identity, provider)
  · obtain ⟨hid, rfl⟩ := Prod.mk.inj hkey
    cases hput : (vault.put p provider' c v).1 with
    | error e =>
      rw [vault.put_refused p provider' c v e hput] at h
      exact Or.inr h
    | ok =>
      obtain ⟨given, hgiven, hback⟩ := vault.get_put p provider' c v hput
      rw [vault.get_congr provider' _ hid, hgiven] at h
      cases h
      exact Or.inl ⟨hid, rfl, hback⟩
  · rw [vault.get_put_ne c v hp hq hkey] at h
    exact Or.inr h

/-- What is read after a deletion was there and is another's. -/
theorem held_delete (hp : p.identity ∈ ids) (hq : q.identity ∈ ids)
    (h : (vault.get q provider' (vault.delete p provider v).2).1 = .ok (some stored)) :
    (vault.get q provider' v).1 = .ok (some stored) ∧ (q.identity, provider') ≠ (p.identity, provider) := by
  by_cases hkey : (q.identity, provider') = (p.identity, provider)
  · obtain ⟨hid, rfl⟩ := Prod.mk.inj hkey
    rw [vault.get_congr provider' _ hid] at h
    exact absurd h (vault.get_delete p provider' v stored)
  · rw [vault.get_delete_ne v hp hq hkey] at h
    exact ⟨h, hkey⟩

end reading

end Atlas
